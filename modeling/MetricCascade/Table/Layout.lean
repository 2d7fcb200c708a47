/-
Where indicators are stored: one kind at one level has a table, named after both, with columns that
its measure decides.
-/
import MetricCascade.Metric.Indicator

namespace MetricCascade

inductive ColumnType where
  | keyword
  | long
  | integer
  | text
  deriving DecidableEq

def ColumnType.name : ColumnType → String
  | keyword => "keyword"
  | long => "long"
  | integer => "integer"
  | text => "text"

structure Column where
  name : String
  type : ColumnType
  deriving DecidableEq

/-- The columns that hold the figures of a measure. -/
def Measure.columns : Measure → List Column
  | count => [⟨"value", .long⟩]
  | average => [⟨"summation", .long⟩, ⟨"count", .long⟩, ⟨"value", .long⟩]
  | share => [⟨"total", .long⟩, ⟨"match", .long⟩, ⟨"percentage", .integer⟩]
  | percentile =>
    [⟨"precision", .integer⟩, ⟨"rank", .integer⟩, ⟨"detail", .text⟩, ⟨"value", .integer⟩]

/-- One kind of indicator at one level. -/
structure Layout where
  kind : String
  measure : Measure
  level : Level
  deriving DecidableEq

namespace Layout

def label (l : Layout) : String := s!"{l.kind}@{l.level.name}"

/-- The name of the table: that of the kind, followed by the level's suffix if it has one. -/
def table (l : Layout) : String :=
  match l.level.suffix? with
  | some suffix => s!"{l.kind}_{suffix}"
  | none => l.kind

/-- The same kind at the next coarser level. -/
def coarser? (l : Layout) : Option Layout := l.level.coarser?.map fun c => { l with level := c }

/-- The same kind at this level and every coarser one. -/
def upward (l : Layout) : List Layout :=
  (Level.all.filter (l.level ≤ ·)).map fun c => { l with level := c }

/-- Identity and measure first, then the figures. -/
def columns (l : Layout) : List Column :=
  [⟨"entity_id", .keyword⟩, ⟨"time_bucket", .long⟩, ⟨"function", .keyword⟩] ++ l.measure.columns

end Layout

end MetricCascade
