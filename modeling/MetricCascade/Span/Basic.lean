/-
Spans: finished calls between two services, as one of the two sides reports them.
-/
namespace MetricCascade

/-- The side of a call that reports it. -/
inductive Vantage where
  /-- The side that was called. -/
  | server
  /-- The side that called. -/
  | client
  deriving DecidableEq

namespace Vantage

def all : List Vantage := [server, client]

def name : Vantage → String
  | server => "server"
  | client => "client"

def ofName? (s : String) : Option Vantage := all.find? (fun v => v.name == s)

end Vantage

/-- One side of a call. -/
structure Party where
  service : String
  /-- The instance of the service. -/
  replica : String
  endpoint : String
  deriving DecidableEq

/-- Stands in for a side that nobody knows. -/
def Party.user : Party := ⟨"User", "User", "User"⟩

/-- A finished call. Its times are in milliseconds since 1970. -/
structure Span where
  /-- The side that reports the call. -/
  reporter : Party
  /-- The other side, if it is known. -/
  peer : Option Party
  vantage : Vantage
  start : Int
  finish : Int
  failed : Bool
  deriving DecidableEq

namespace Span

/-- How long the call took; a call that ends before it starts took no time. -/
def latency (s : Span) : Int := max (s.finish - s.start) 0

/-- The side that called. -/
def caller (s : Span) : Party :=
  match s.vantage with
  | .server => s.peer.getD .user
  | .client => s.reporter

/-- The side that was called. -/
def callee (s : Span) : Party :=
  match s.vantage with
  | .server => s.reporter
  | .client => s.peer.getD .user

end Span

end MetricCascade
