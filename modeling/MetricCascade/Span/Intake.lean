/-
The queue through which spans reach the one who counts them. Spans are taken in the order in which
they were accepted. Cancelling closes the queue: nothing more is accepted, and what is in it is
still taken. The taker leaves once the queue is empty and nobody can send any more.
-/
import MetricCascade.Span.Dispatch

namespace MetricCascade

structure Intake where
  /-- Spans that were accepted and not taken yet, oldest first. -/
  queue : List Span := []
  /-- The number of handles through which spans can be sent. -/
  handles : Nat := 1
  cancelled : Bool := false
  closed : Bool := false
  /-- The taker has left. -/
  finished : Bool := false

namespace Intake

/-! ## The sending side -/

def accepts (i : Intake) : Bool := 0 < i.handles && !i.closed && !i.finished

/-- Sends a span and says whether it was accepted. -/
def send (i : Intake) (s : Span) : Bool × Intake :=
  if i.accepts then (true, { i with queue := i.queue ++ [s] }) else (false, i)

/-- Makes one more handle out of one that is there. -/
def cloneHandle (i : Intake) : Intake := if i.handles = 0 then i else { i with handles := i.handles + 1 }

def dropHandle (i : Intake) : Intake := { i with handles := i.handles - 1 }

def cancel (i : Intake) : Intake := { i with cancelled := true }

/-! ## The taking side -/

/-- Whether the taker has yet to notice that it was cancelled. -/
def canClose (i : Intake) : Bool := i.cancelled && !i.closed && !i.finished

def close (i : Intake) : Intake := { i with closed := true }

/-- Takes the oldest span, or leaves an empty queue to which nobody can send; otherwise the taker has
to wait. -/
def take? (i : Intake) : Option (Option Span × Intake) :=
  if i.finished then none
  else
    match i.queue with
    | s :: rest => some (some s, { i with queue := rest })
    | [] => if i.closed || i.handles = 0 then some (none, { i with finished := true }) else none

theorem take?_queue {i j : Intake} {s : Span} (h : i.take? = some (some s, j)) :
    i.queue = s :: j.queue := by
  unfold take? at h
  split at h
  · simp at h
  · split at h
    · next hq => simp only [Option.some.injEq, Prod.mk.injEq] at h; obtain ⟨rfl, rfl⟩ := h; exact hq
    · split at h <;> simp at h

/-- Takes and counts spans until there is none to take. A fault makes the taker leave at once. -/
def drain (i : Intake) (r : Registry) : Outcome Unit × Intake × Registry :=
  match _h : i.take? with
  | none => (.ok (), i, r)
  | some (none, i) => (.ok (), i, r)
  | some (some s, j) =>
    match r.dispatchOrDrop s with
    | (.error fault, r) => (.error fault, { j with finished := true }, r)
    | (.ok (), r) => j.drain r
termination_by i.queue.length
decreasing_by simp [take?_queue _h]

/-- What the taker does until it has to wait or leaves: it notices first whether it was cancelled. -/
def run (i : Intake) (r : Registry) : Outcome Unit × Intake × Registry :=
  if i.canClose then i.close.drain r else i.drain r

end Intake

end MetricCascade
