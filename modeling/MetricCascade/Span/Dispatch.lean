/-
Counting spans in a registry.
-/
import MetricCascade.Registry.Basic
import MetricCascade.Span.Scope

namespace MetricCascade

namespace Registry

/-- Whether every kind is registered that spans are counted in; the first one missing is reported. -/
def checkSpanKinds (r : Registry) : Except RegistryError Unit :=
  match Scope.kinds.find? (fun k => !r.lines.contains k.1) with
  | some (kind, _) => .error (.kindUnknown kind)
  | none => .ok ()

/-- Submits updates in order and counts those that are taken. -/
def submitAll : List (String × Indicator) → Registry → Outcome Nat × Registry
  | [], r => (.ok 0, r)
  | (kind, x) :: rest, r =>
    match r.submit kind x with
    | (.error fault, r) => (.error fault, r)
    | (.ok (.ok ()), r) =>
      let (n, r) := submitAll rest r
      (n.map (· + 1), r)
    | (.ok (.error e), r) => submitAll rest (r.record (.updateDropped e))

/-- Counts a span. The answer is the number of updates that it led to. -/
def dispatch (r : Registry) (s : Span) : Outcome (Except BucketError Nat) × Registry :=
  match s.updates with
  | .error e => (.ok (.error e), r)
  | .ok updates =>
    let (n, r) := submitAll updates r
    (n.map .ok, r)

/-- Counts a span, or reports that it was dropped. -/
def dispatchOrDrop (r : Registry) (s : Span) : Outcome Unit × Registry :=
  match r.dispatch s with
  | (.error fault, r) => (.error fault, r)
  | (.ok (.ok _), r) => (.ok (), r)
  | (.ok (.error e), r) => (.ok (), r.record (.spanDropped s.reporter.service e))

end Registry

end MetricCascade
