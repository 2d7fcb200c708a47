/-
Stages in a line: each hands what it flushes to at most one stage further down. A cascade is the line
of one kind from minutes to months, in which each stage feeds the one below it.
-/
import MetricCascade.Stage.Basic

namespace MetricCascade

namespace Stage

/-- The states of stages, one for each. -/
def States : List Stage → Type
  | [] => Unit
  | _ :: rest => State × States rest

namespace States

/-- The states of stages that have done nothing yet. -/
def initial : (stages : List Stage) → States stages
  | [] => ()
  | _ :: rest => ({}, initial rest)

def toList : {stages : List Stage} → States stages → List State
  | [], () => []
  | _ :: _, (own, below) => own :: below.toList

/-- Works on the windows of the stage at a position; `none` if there is no such stage. -/
def updateWindows {α : Type} (f : WindowPair → α × WindowPair) :
    {stages : List Stage} → Nat → States stages → Option α × States stages
  | [], _, () => (none, ())
  | _ :: _, 0, (own, below) =>
    let (a, p) := f own.windows
    (some a, ({ own with windows := p }, below))
  | _ :: _, i + 1, (own, below) =>
    let (a, below) := below.updateWindows f i
    (a, (own, below))

end States

/-! ## Updates and flushes

The stages are walked down to the one that is meant. What has been passed over does not change. -/

/-- The stage that receives what `s` flushes, among the stages `rest` below it. -/
def outlet (s : Stage) (rest : List Stage)
    (submit : Nat → Indicator → States rest → Backend → Outcome Unit × States rest × Backend) :
    Option (Outlet (States rest)) :=
  s.next.bind fun j => rest[j]?.map fun t => ⟨t.layout, submit j⟩

/-- Submits an update to the stage at a position. `above` are the stages whose flush led here. -/
def submitIn : (stages : List Stage) → (above : List Layout) → Nat → Indicator →
    States stages → Backend → Outcome Unit × States stages × Backend
  | [], _, _, _, (), b => (.ok (), (), b)
  | s :: rest, above, 0, x, (own, below), b =>
    let (r, c) :=
      s.submit (s.outlet rest (submitIn rest (above ++ [s.layout]))) above x ⟨own, below, b⟩
    (r, (c.own, c.below), c.backend)
  | _ :: rest, above, i + 1, x, (own, below), b =>
    let (r, below, b) := submitIn rest above i x below b
    (r, (own, below), b)

/-- Flushes the first of the stages. -/
def flushHead (s : Stage) (rest : List Stage) (states : States (s :: rest)) (b : Backend) :
    Outcome (Except FlushError Bool) × Scene (States rest) :=
  s.flush (s.outlet rest (submitIn rest [s.layout])) [] ⟨states.1, states.2, b⟩

/-- Flushes the stage at a position. -/
def flushIn : (stages : List Stage) → Nat → States stages → Backend →
    Outcome (Except FlushError Bool) × States stages × Backend
  | [], _, (), b => (.ok (.ok false), (), b)
  | s :: rest, 0, states, b =>
    let (r, c) := s.flushHead rest states b
    (r, (c.own, c.below), c.backend)
  | _ :: rest, i + 1, (own, below), b =>
    let (r, below, b) := flushIn rest i below b
    (r, (own, below), b)

/-- Flushes every stage in order. An error is reported and does not keep the following stages from
being flushed; the first one is the answer. -/
def flushAllIn : (stages : List Stage) → States stages → Backend →
    Outcome (Except FlushError Unit) × States stages × Backend
  | [], (), b => (.ok (.ok ()), (), b)
  | s :: rest, states, b =>
    match s.flushHead rest states b with
    | (.error fault, c) => (.error fault, (c.own, c.below), c.backend)
    | (.ok (.ok _), c) =>
      let (r, below, b) := flushAllIn rest c.below c.backend
      (r, (c.own, below), b)
    | (.ok (.error e), c) =>
      let (r, below, b) := flushAllIn rest c.below (c.backend.record (.flushFailed e))
      (r.map fun _ => .error e, (c.own, below), b)

end Stage

/-! ## Lines -/

/-- Stages, each above those that it can feed, and their states. -/
structure Line where
  stages : List Stage
  states : Stage.States stages

namespace Line

/-- A line of stages that have done nothing yet. -/
def ofStages (stages : List Stage) : Line := ⟨stages, .initial stages⟩

/-- The line of one kind through all levels. -/
def cascade (kind : String) (measure : Measure) (capacity : Nat) : Line :=
  ofStages <| Level.all.map fun level =>
    { layout := ⟨kind, measure, level⟩, capacity, next := level.coarser?.map fun _ => 0 }

def layouts (l : Line) : List Layout := l.stages.map (·.layout)

/-- The position of the stage of a level. -/
def position? (l : Line) (level : Level) : Option Nat :=
  l.stages.findIdx? (fun s => s.layout.level == level)

/-- The stage that the stage at a position feeds. -/
def fedBy? (l : Line) (i : Nat) : Option Stage := do
  let j ← (← l.stages[i]?).next
  l.stages[i + 1 + j]?

/-- Submits an update to the stage at a position. -/
def submitAt (l : Line) (i : Nat) (x : Indicator) (b : Backend) : Outcome Unit × Line × Backend :=
  let (r, states, b) := Stage.submitIn l.stages [] i x l.states b
  (r, { l with states := states }, b)

/-- Flushes the stage at a position. -/
def flushAt (l : Line) (i : Nat) (b : Backend) : Outcome (Except FlushError Bool) × Line × Backend :=
  let (r, states, b) := Stage.flushIn l.stages i l.states b
  (r, { l with states := states }, b)

/-- Submits an update to the first stage. -/
def submit (l : Line) (x : Indicator) (b : Backend) : Outcome Unit × Line × Backend := l.submitAt 0 x b

/-- Flushes every stage from the first to the last, so that what one forwards is written by the
next. -/
def flush (l : Line) (b : Backend) : Outcome (Except FlushError Unit) × Line × Backend :=
  let (r, states, b) := Stage.flushAllIn l.stages l.states b
  (r, { l with states := states }, b)

/-- Works on the windows of the stage at a position; `none` if there is no such stage. -/
def updateWindows {α : Type} (l : Line) (i : Nat) (f : WindowPair → α × WindowPair) :
    Option α × Line :=
  let (a, states) := l.states.updateWindows f i
  (a, { l with states := states })

end Line

end MetricCascade
