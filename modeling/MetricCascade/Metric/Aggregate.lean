/-
What is kept of many observations: a count, an average, a share or a percentile. Aggregates of one
measure combine; refreshing computes the figure that is read off them.

Sums and products are unbounded integers here. Kept in 64 bits they may overflow, which aborts a build
with checks and wraps around in one without; so what is said of aggregates is said of runs in which no
sum and no product leaves 64 bits. The only fault is that of a quotient, which aborts either build.
-/
import MetricCascade.Metric.Histogram

namespace MetricCascade

/-- What is measured. -/
inductive Measure where
  | count
  | average
  | share
  | percentile
  deriving DecidableEq

namespace Measure

def all : List Measure := [count, average, share, percentile]

def name : Measure → String
  | count => "count"
  | average => "long_avg"
  | share => "percent"
  | percentile => "percentile"

def ofName? (s : String) : Option Measure := all.find? (fun m => m.name == s)

end Measure

/-- An arithmetic fault. It aborts the operation in which it occurs; what was done before stays. Sums and
products that leave 64 bits are not among the faults. -/
inductive Fault where
  /-- A quotient of 64 bits does not fit into 64 bits. -/
  | quotient
  deriving DecidableEq

def Fault.message : Fault → String
  | quotient => "attempt to divide with overflow"

/-- The result of an operation that a fault may abort. -/
abbrev Outcome (α : Type) := Except Fault α

/-- The least integer of 64 bits. -/
def minInt64 : Int := -9223372036854775808

def maxInt64 : Int := 9223372036854775807

/-- A sum of samples and their number. -/
structure Average where
  summation : Int
  count : Int
  /-- The average, as last computed. -/
  value : Int
  deriving DecidableEq

namespace Average

def add (a b : Average) : Average :=
  { a with summation := a.summation + b.summation, count := a.count + b.count }

/-- Computes the average, rounded toward zero; there is none of no samples, and `0` stands for it. -/
def refresh (a : Average) : Outcome Average :=
  if a.count = 0 then .ok { a with value := 0 }
  else if a.summation = minInt64 ∧ a.count = -1 then .error .quotient
  else .ok { a with value := a.summation.tdiv a.count }

end Average

/-- How many observations there were, and how many of them matched. -/
structure Share where
  total : Int
  matched : Int
  /-- The share, as last computed. -/
  percentage : Int
  deriving DecidableEq

namespace Share

/-- A share of `scale` is the whole. -/
def scale : Int := 10000

def add (a b : Share) : Share :=
  { a with total := a.total + b.total, matched := a.matched + b.matched }

/-- Computes the share, rounded toward zero and kept to its low 32 bits; `0` stands for the share
of no observations. -/
def refresh (a : Share) : Share :=
  { a with
    percentage :=
      if a.total = 0 then 0 else ((a.matched * scale).tdiv a.total).bmod 4294967296 }

end Share

/-- What is kept of the observations of one entity in one time window. -/
inductive Aggregate where
  | count (value : Int)
  | average (average : Average)
  | share (share : Share)
  | percentile (histogram : Histogram)
  deriving DecidableEq

/-- Why two aggregates cannot be combined. -/
inductive Misfit where
  | measure (existing incoming : Measure)
  /-- The histograms differ in rank or precision. -/
  | shape (existing incoming : Histogram)
  deriving DecidableEq

def Histogram.shapeText (h : Histogram) : String := s!"p{h.rank}/{h.precision}"

def Misfit.message : Misfit → String
  | measure existing incoming =>
    s!"cannot combine a {incoming.name} value into a {existing.name} indicator"
  | shape existing incoming =>
    "cannot combine percentile indicators with different shapes: " ++
      s!"{existing.shapeText} vs {incoming.shapeText}"

namespace Aggregate

def measure : Aggregate → Measure
  | count _ => .count
  | average _ => .average
  | share _ => .share
  | percentile _ => .percentile

/-- The figure that a reader wants to see. -/
def figure : Aggregate → Int
  | count n => n
  | average a => a.value
  | share s => s.percentage
  | percentile h => h.value

/-- Adds the observations of the second aggregate to the first. The figure is not computed anew. -/
def combine : Aggregate → Aggregate → Except Misfit Aggregate
  | count m, count n => .ok (count (m + n))
  | average a, average b => .ok (average (a.add b))
  | share a, share b => .ok (share (a.add b))
  | percentile h, percentile g =>
    if h.SameShape g then .ok (percentile (h.add g)) else .error (.shape h g)
  | a, b => .error (.measure a.measure b.measure)

/-- Computes the figure anew. -/
def refresh : Aggregate → Outcome Aggregate
  | count n => .ok (count n)
  | average a => a.refresh.map average
  | share s => .ok (share s.refresh)
  | percentile h => .ok (percentile h.refresh)

end Aggregate

end MetricCascade
