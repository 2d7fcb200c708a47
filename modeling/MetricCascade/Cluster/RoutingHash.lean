/-
The hash by which indicators are spread over the members of a cluster: the 64-bit hash of Fowler,
Noll and Vo over the bytes of the entity and a closing byte.
-/
import MetricCascade.Metric.Indicator

namespace MetricCascade

namespace RoutingHash

def basis : UInt64 := 0xCBF29CE484222325

def prime : UInt64 := 0x100000001B3

/-- Takes one byte in. -/
def step (h : UInt64) (b : UInt8) : UInt64 := (h ^^^ b.toUInt64) * prime

/-- The hash of a text, closed by a byte that no text contains. -/
def ofText (s : String) : UInt64 := step (s.toUTF8.data.foldl step basis) 0xFF

end RoutingHash

/-- All windows of one entity have one hash. -/
def Indicator.routingHash (x : Indicator) : UInt64 := RoutingHash.ofText x.key.entity

end MetricCascade
