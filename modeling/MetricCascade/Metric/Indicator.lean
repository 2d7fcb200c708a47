/-
Indicators: the aggregate of one entity in one time window. The entity and the window are its key;
indicators combine under one key, and roll up to the window of a coarser level.
-/
import MetricCascade.Metric.Aggregate
import MetricCascade.Time.Bucket

namespace MetricCascade

/-- Whose observations an indicator holds, and of which time window. -/
structure Key where
  entity : String
  bucket : Bucket
  deriving DecidableEq

/-- The key as one text, under which a row is stored. -/
def Key.text (k : Key) : String := s!"{k.bucket}_{k.entity}"

structure Indicator where
  key : Key
  value : Aggregate
  deriving DecidableEq

/-- Why two indicators cannot be combined. -/
inductive CombineError where
  | identity (existing incoming : Key)
  | misfit (cause : Misfit)
  deriving DecidableEq

def CombineError.message : CombineError → String
  | identity existing incoming =>
    s!"cannot combine {existing.text} with {incoming.text}: identities differ"
  | misfit cause => cause.message

namespace Indicator

/-! ## Single observations

Their figures are not computed yet. -/

def count (entity : String) (bucket : Bucket) (value : Int) : Indicator :=
  ⟨⟨entity, bucket⟩, .count value⟩

def average (entity : String) (bucket : Bucket) (sample : Int) : Indicator :=
  ⟨⟨entity, bucket⟩, .average ⟨sample, 1, 0⟩⟩

def share (entity : String) (bucket : Bucket) (matched : Bool) : Indicator :=
  ⟨⟨entity, bucket⟩, .share ⟨1, if matched then 1 else 0, 0⟩⟩

def percentile (entity : String) (bucket : Bucket) (sample precision : Int) (rank : Nat) : Indicator :=
  ⟨⟨entity, bucket⟩, .percentile (.ofSample sample precision rank)⟩

/-! ## Operations -/

def measure (x : Indicator) : Measure := x.value.measure

/-- Adds the observations of `y`, which must be of the same key and measure. -/
def combine (x y : Indicator) : Except CombineError Indicator :=
  if x.key = y.key then
    match x.value.combine y.value with
    | .ok v => .ok { x with value := v }
    | .error e => .error (.misfit e)
  else .error (.identity x.key y.key)

/-- Computes the figure anew. -/
def refresh (x : Indicator) : Outcome Indicator :=
  x.value.refresh.map fun v => { x with value := v }

/-- The same aggregate for the window of level `target` that holds the indicator's window. -/
def rollup (x : Indicator) (target : Level) : Except BucketError Indicator :=
  match x.key.bucket.widen target with
  | .ok b => .ok { x with key := ⟨x.key.entity, b⟩ }
  | .error e => .error e

end Indicator

end MetricCascade
