/-
Reading a span from JSON text. A span, like a party, is an object with named fields or the list of
its values in their order. In an object, unknown fields are passed over and a known field may stand
only once.
-/
import MetricCascade.Json.Reader
import MetricCascade.Metric.Aggregate
import MetricCascade.Span.Basic

namespace MetricCascade

/-! ## Fields -/

namespace Json

/-- The value of a field that may be absent; there is no answer if the field is repeated. -/
def optionalField? (name : String) (fields : List (String × Json)) : Option (Option Json) :=
  match valuesOf name fields with
  | [] => some none
  | [v] => some (some v)
  | _ => none

/-- The value of a field that stands exactly once. -/
def singleField? (name : String) (fields : List (String × Json)) : Option Json :=
  (optionalField? name fields).join

/-- An integer of 64 bits. -/
def long? (v : Json) : Option Int := v.intWithin? minInt64 maxInt64

end Json

/-- A vantage: its name, or an object that has the name as its only field, with nothing in it. -/
def Vantage.ofJson? : Json → Option Vantage
  | .text name => ofName? name
  | .object [(name, .null)] => ofName? name
  | _ => none

def Party.ofJson? : Json → Option Party
  | .object fields => do
    let service ← (Json.singleField? "service" fields).bind Json.text?
    let replica ← (Json.singleField? "instance" fields).bind Json.text?
    let endpoint ← (Json.singleField? "endpoint" fields).bind Json.text?
    some ⟨service, replica, endpoint⟩
  | .list [service, replica, endpoint] => do
    some ⟨← service.text?, ← replica.text?, ← endpoint.text?⟩
  | _ => none

/-! ## Spans -/

namespace Span

/-- A peer that may be unknown. -/
def peer? : Json → Option (Option Party)
  | .null => some none
  | v => (Party.ofJson? v).map some

/-- Reads an optional value; an absent one is `default`. -/
def readOr {α : Type} (default : α) (read : Json → Option α) : Option Json → Option α
  | none => some default
  | some v => read v

def ofJson? : Json → Option Span
  | .object fields => do
    let service ← (Json.singleField? "service" fields).bind Json.text?
    let replica ← (Json.singleField? "instance" fields).bind Json.text?
    let endpoint ← (Json.singleField? "endpoint" fields).bind Json.text?
    let peer ← readOr none peer? (← Json.optionalField? "peer" fields)
    let vantage ← readOr .server Vantage.ofJson? (← Json.optionalField? "detect_point" fields)
    let start ← (Json.singleField? "start_ms" fields).bind Json.long?
    let finish ← (Json.singleField? "end_ms" fields).bind Json.long?
    let failed ← readOr false Json.bool? (← Json.optionalField? "is_error" fields)
    some { reporter := ⟨service, replica, endpoint⟩, peer, vantage, start, finish, failed }
  | .list (service :: replica :: endpoint :: peer :: vantage :: start :: finish :: rest) => do
    let reporter := ⟨← service.text?, ← replica.text?, ← endpoint.text?⟩
    let peer ← peer? peer
    let vantage ← Vantage.ofJson? vantage
    let start ← start.long?
    let finish ← finish.long?
    let failed ← match rest with
      | [] => some false
      | [v] => v.bool?
      | _ => none
    some { reporter, peer, vantage, start, finish, failed }
  | _ => none

/-- The span that a text stands for. -/
def ofText? (s : String) : Option Span := (Json.ofText? s).bind ofJson?

end Span

end MetricCascade
