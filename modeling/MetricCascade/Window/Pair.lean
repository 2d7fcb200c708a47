/-
Two windows that take turns: the active one receives indicators while the retired one is read out.
They change places when an attempt to swap them commits. An attempt is granted only if no other is
alive and the retired window has been read out; refused attempts are alive too.
-/
import MetricCascade.Window.Basic

namespace MetricCascade

structure WindowPair where
  active : Window := {}
  retired : Window := {}
  /-- The number of attempts that are alive. -/
  claims : Nat := 0

/-- An attempt to swap the windows of a pair. -/
structure Attempt where
  granted : Bool
  committed : Bool := false
  deriving DecidableEq

namespace WindowPair

/-- Begins an attempt. -/
def begin (p : WindowPair) : Attempt × WindowPair :=
  ({ granted := p.claims = 0 && !p.retired.reading }, { p with claims := p.claims + 1 })

/-- Exchanges the windows. The window that retires waits for its reader from now on. -/
def swap (p : WindowPair) : WindowPair :=
  { p with active := p.retired, retired := p.active.startReading }

/-- Swaps the windows if the attempt was granted and has not committed yet. -/
def commit (p : WindowPair) (a : Attempt) : Bool × Attempt × WindowPair :=
  if a.granted && !a.committed then (true, { a with committed := true }, p.swap) else (false, a, p)

/-- Ends an attempt. -/
def release (p : WindowPair) : WindowPair := { p with claims := p.claims - 1 }

/-- Merges an indicator into the active window, on which the writer is registered meanwhile. -/
def merge (p : WindowPair) (x : Indicator) : Outcome (Except CombineError Unit) × WindowPair :=
  let (r, w) := p.active.enter.merge x
  (r, { p with active := w.leave })

/-- Whether a reader has to wait for a writer that still holds the retired window. -/
def mustWait (p : WindowPair) : Bool := p.retired.isWriting

/-- Takes every entry out of the retired window and lets it become active again. The reader has
waited for the writers that hold it. -/
def drain (p : WindowPair) (order : DrainOrder := .insertion) : List Indicator × WindowPair :=
  let (entries, w) := p.retired.startReading.drain order
  (entries, { p with retired := w.finishReading })

/-- What a writer sees that registered before a swap and merges after it. -/
inductive Straddle where
  /-- The swap was refused; nothing was merged. -/
  | notSwapped
  /-- The reader waited, or not, and then took these entries. -/
  | drained (waited : Bool) (entries : List Indicator)
  /-- The merge was refused; the entries were taken all the same. -/
  | rejected (error : CombineError)

/-- A writer registers on the active window, which is then retired. The reader waits while the
writer merges into the retired window, and drains it once the writer has left. -/
def straddle (p : WindowPair) (x : Indicator) (order : DrainOrder := .insertion) : Outcome Straddle × WindowPair :=
  let (a, p) := { p with active := p.active.enter }.begin
  let (swapped, _, p) := p.commit a
  if swapped then
    let waited := p.mustWait
    let (r, w) := p.retired.merge x
    let (entries, p) := { p with retired := w.leave }.drain order
    (match r with
      | .error fault => .error fault
      | .ok (.error e) => .ok (.rejected e)
      | .ok (.ok ()) => .ok (.drained waited entries), p.release)
  else (.ok .notSwapped, { p with active := p.active.leave }.release)

end WindowPair

end MetricCascade
