/-
The four levels at which time is cut into windows, finest first.
-/
namespace MetricCascade

/-- How long the windows of a level are. -/
inductive Level where
  | minute
  | hour
  | day
  | month
  deriving DecidableEq

namespace Level

/-- All levels, finest first. -/
def all : List Level := [minute, hour, day, month]

def name : Level → String
  | minute => "minute"
  | hour => "hour"
  | day => "day"
  | month => "month"

def ofName? (s : String) : Option Level := all.find? (fun l => l.name == s)

/-- The place among all levels: the finest has rank `0`. -/
def rank : Level → Nat
  | minute => 0
  | hour => 1
  | day => 2
  | month => 3

/-- The order of levels: a finer level is below a coarser one. -/
instance : LE Level := ⟨fun a b => a.rank ≤ b.rank⟩

instance (a b : Level) : Decidable (a ≤ b) := inferInstanceAs (Decidable (a.rank ≤ b.rank))

/-- The next coarser level. -/
def coarser? : Level → Option Level
  | minute => some hour
  | hour => some day
  | day => some month
  | month => none

/-- What a table of this level adds to the name of its kind; the finest level adds nothing. -/
def suffix? : Level → Option String
  | minute => none
  | hour => some "hour"
  | day => some "day"
  | month => some "month"

/-- The least code of a window of this level: a code has 12, 10, 8 or 6 digits. -/
def leastCode : Level → Int
  | minute => 100000000000
  | hour => 1000000000
  | day => 10000000
  | month => 100000

end Level

end MetricCascade
