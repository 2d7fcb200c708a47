/-
A registry holds the cascade of every kind of indicator, over one store. Cascades are flushed in the
order in which their kinds were registered.
-/
import MetricCascade.Stage.Line

namespace MetricCascade

structure Registry where
  lines : Dict String Line := ∅
  backend : Backend := {}

namespace Registry

/-! ## Building -/

/-- Adds the cascade of a kind that is not there yet. -/
def register (r : Registry) (capacity : Nat) (kind : String) (measure : Measure) :
    Except RegistryError Registry :=
  if r.lines.contains kind then .error (.kindRepeated kind)
  else .ok { r with lines := r.lines.insert kind (.cascade kind measure capacity) }

/-- Registers kinds in order, up to the first that is there already. -/
def registerAll (capacity : Nat) : List (String × Measure) → Registry → Except RegistryError Registry
  | [], r => .ok r
  | (kind, measure) :: rest, r =>
    match r.register capacity kind measure with
    | .error e => .error e
    | .ok r => registerAll capacity rest r

/-- The registry of some kinds. A missing store is found before a repeated kind. -/
def build (backend? : Option Backend) (capacity : Nat) (kinds : List (String × Measure)) :
    Except RegistryError Registry :=
  match backend? with
  | none => .error .storeMissing
  | some backend => registerAll capacity kinds { backend }

/-- The layouts of all stages, line by line. -/
def layouts (r : Registry) : List Layout := r.lines.values.flatMap Line.layouts

/-! ## Updates and flushes -/

/-- Runs an operation on the line of a kind; `none` if there is no such line. -/
def onLine {α : Type} (r : Registry) (kind : String) (f : Line → Backend → α × Line × Backend) :
    Option α × Registry :=
  match r.lines.get? kind with
  | none => (none, r)
  | some line =>
    let (a, line, backend) := f line r.backend
    (some a, { lines := r.lines.insert kind line, backend := backend })

def record (r : Registry) (e : Event) : Registry := { r with backend := r.backend.record e }

/-- Submits an update to the first stage of its kind. -/
def submit (r : Registry) (kind : String) (x : Indicator) :
    Outcome (Except RegistryError Unit) × Registry :=
  match r.onLine kind (·.submit x) with
  | (none, r) => (.ok (.error (.kindUnknown kind)), r)
  | (some outcome, r) => (outcome.map .ok, r)

/-- Flushes the lines of some kinds in order. The first error is the answer; it does not keep the
following lines from being flushed. -/
def flushLines : List String → Registry → Outcome (Except FlushError Unit) × Registry
  | [], r => (.ok (.ok ()), r)
  | kind :: rest, r =>
    match r.onLine kind Line.flush with
    | (some (.error fault), r) => (.error fault, r)
    | (some (.ok (.error e)), r) =>
      let (outcome, r) := flushLines rest r
      (outcome.map fun _ => .error e, r)
    | (some (.ok (.ok ())), r) => flushLines rest r
    | (none, r) => flushLines rest r

/-- Flushes every line. -/
def flushAll (r : Registry) : Outcome (Except FlushError Unit) × Registry :=
  match flushLines r.lines.keys r with
  | (.ok (.error e), r) => (.ok (.error e), r.record .passFailed)
  | answer => answer

/-! ## Single stages -/

/-- The position of a level's stage in the line of a kind. -/
def position? (r : Registry) (kind : String) (level : Level) : Option Nat :=
  (r.lines.get? kind).bind (·.position? level)

def stage? (r : Registry) (kind : String) (i : Nat) : Option Stage :=
  (r.lines.get? kind).bind (·.stages[i]?)

def state? (r : Registry) (kind : String) (i : Nat) : Option Stage.State :=
  (r.lines.get? kind).bind (·.states.toList[i]?)

/-- Works on the windows of one stage; `none` if there is no such stage. -/
def updateWindows {α : Type} (r : Registry) (kind : String) (i : Nat)
    (f : WindowPair → α × WindowPair) : Option α × Registry :=
  match r.onLine kind (fun line b => let (a, line) := line.updateWindows i f; (a, line, b)) with
  | (a, r) => (a.join, r)

end Registry

end MetricCascade
