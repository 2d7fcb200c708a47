/-
Rows: an indicator as one flat record. Writing always succeeds; reading wants every field of the
measure, integers within their width, and passes over fields that it does not know.
-/
import MetricCascade.Dict
import MetricCascade.Json.Basic
import MetricCascade.Metric.Indicator

namespace MetricCascade

/-- A record, field by field. -/
abbrev Row := Dict String Json

namespace Row

/-! ## Writing -/

def ofBin (b : Bin) : Json := .object [("bucket", .int b.bucket), ("count", .int b.count)]

/-- The fields that hold the figures of an aggregate. -/
def fieldsOf : Aggregate → List (String × Json)
  | .count n => [("value", .int n)]
  | .average a => [("summation", .int a.summation), ("count", .int a.count), ("value", .int a.value)]
  | .share s => [("total", .int s.total), ("match", .int s.matched), ("percentage", .int s.percentage)]
  | .percentile h =>
    [("precision", .int h.precision), ("rank", .int h.rank),
      ("detail", .list (h.bins.map ofBin)), ("value", .int h.value)]

def ofIndicator (x : Indicator) : Row :=
  Dict.ofList <|
    [("entity_id", .text x.key.entity), ("time_bucket", .int x.key.bucket.code),
      ("function", .text x.measure.name)] ++ fieldsOf x.value

/-! ## Reading -/

/-- An integer of 64 bits. -/
def long? (r : Row) (name : String) : Option Int := (r.get? name).bind (·.intWithin? minInt64 maxInt64)

/-- An integer of 32 bits. -/
def integer? (r : Row) (name : String) : Option Int := (r.get? name).bind (·.intWithin? minInt32 maxInt32)

/-- A measure, given by its name or by its place among all measures. -/
def measure? : Json → Option Measure
  | .text s => Measure.ofName? s
  | .int n => if 0 ≤ n then Measure.all[n.toNat]? else none
  | _ => none

/-- A bin, as an object or as the list of its two numbers. -/
def bin? : Json → Option Bin
  | .object fields => do
    let bucket ← (Json.field? "bucket" fields).bind (·.intWithin? minInt32 maxInt32)
    let count ← (Json.field? "count" fields).bind (·.intWithin? minInt64 maxInt64)
    some ⟨bucket, count⟩
  | .list [bucket, count] => do
    some ⟨← bucket.intWithin? minInt32 maxInt32, ← count.intWithin? minInt64 maxInt64⟩
  | _ => none

def bins? : List Json → Option (List Bin)
  | [] => some []
  | v :: rest => do some ((← bin? v) :: (← bins? rest))

def aggregate? (r : Row) : Measure → Option Aggregate
  | .count => do some (.count (← r.long? "value"))
  | .average => do
    some (.average ⟨← r.long? "summation", ← r.long? "count", ← r.long? "value"⟩)
  | .share => do
    some (.share ⟨← r.long? "total", ← r.long? "match", ← r.integer? "percentage"⟩)
  | .percentile => do
    let precision ← r.integer? "precision"
    let rank ← (r.get? "rank").bind (·.intWithin? 0 255)
    let bins ← ((r.get? "detail").bind Json.items?).bind bins?
    let value ← r.integer? "value"
    some (.percentile ⟨precision, rank.toNat, bins, value⟩)

def indicator? (r : Row) : Option Indicator := do
  let entity ← (r.get? "entity_id").bind Json.text?
  let code ← r.long? "time_bucket"
  let measure ← (r.get? "function").bind measure?
  let value ← r.aggregate? measure
  some ⟨⟨entity, ⟨code⟩⟩, value⟩

end Row

end MetricCascade
