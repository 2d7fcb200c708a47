/-
Windows in use by many at once. Attempts to swap them overlap, and a writer may hold a window while
other calls come in between, also while the window retires. A log of the calls and their answers
says which update belongs to which window: the one that had seen as many swaps when the update, or
the writer that brought it, arrived.
-/
import MetricCascade.Proofs.Window.Gathered
import MetricCascade.Window.Session

namespace MetricCascade

/-- A session with the writers that hold one of its windows. -/
structure Traffic where
  session : Session := {}
  /-- The number of swaps so far. -/
  swaps : Nat := 0
  /-- The writers that have registered and not left, each with the number of swaps before it came. A
  writer holds the active window if there was none since, and else the retired one. -/
  writers : Dict String Nat := ∅

namespace Traffic

/-! ## Moves -/

/-- A call, under the name of the attempt or of the writer that makes it. -/
inductive Move where
  /-- A writer registers, merges and leaves. -/
  | merge (x : Indicator)
  | begin (attempt : String)
  | commit (attempt : String)
  | release (attempt : String)
  /-- A reader asks for the retired window; it has to wait while a writer holds it. -/
  | drain (order : DrainOrder)
  | enter (writer : String)
  | write (writer : String) (x : Indicator)
  | leave (writer : String)

inductive Reply where
  | merged (outcome : Outcome (Except CombineError Unit))
  | granted (yes : Bool)
  | swapped (yes : Bool)
  | drained (entries : List Indicator)
  | done
  /-- There is no attempt or writer of that name, or there is a writer already, or the reader waits. -/
  | ignored

/-- The window that a writer holds which has seen so many swaps. -/
def window (t : Traffic) (n : Nat) : Window :=
  if n = t.swaps then t.session.windows.active else t.session.windows.retired

/-- Changes that window. -/
def setWindow (t : Traffic) (n : Nat) (w : Window) : Traffic :=
  let p := t.session.windows
  { t with
    session.windows := if n = t.swaps then { p with active := w } else { p with retired := w } }

def perform (t : Traffic) : Move → Reply × Traffic
  | .merge x =>
    let (r, s) := t.session.merge x
    (.merged r, { t with session := s })
  | .begin name =>
    let (granted, s) := t.session.begin name
    (.granted granted, { t with session := s })
  | .commit name =>
    match t.session.commit name with
    | (none, s) => (.ignored, { t with session := s })
    | (some false, s) => (.swapped false, { t with session := s })
    | (some true, s) => (.swapped true, { t with session := s, swaps := t.swaps + 1 })
  | .release name =>
    match t.session.release name with
    | (false, s) => (.ignored, { t with session := s })
    | (true, s) => (.done, { t with session := s })
  | .drain order =>
    if t.session.windows.mustWait then (.ignored, t)
    else
      let (entries, s) := t.session.drain order
      (.drained entries, { t with session := s })
  | .enter name =>
    if t.writers.contains name then (.ignored, t)
    else
      (.done, { t.setWindow t.swaps (t.window t.swaps).enter with writers := t.writers.insert name t.swaps })
  | .write name x =>
    match t.writers.get? name with
    | none => (.ignored, t)
    | some n =>
      let (r, w) := (t.window n).merge x
      (.merged r, t.setWindow n w)
  | .leave name =>
    match t.writers.get? name with
    | none => (.ignored, t)
    | some n => (.done, { t.setWindow n (t.window n).leave with writers := t.writers.erase name })

/-! ## Steps -/

/-- What a move can lead to. -/
inductive Step (t : Traffic) : Move → Reply → Traffic → Prop
  /-- There is nobody of the name, or somebody already, or the reader has to wait. -/
  | ignored {m : Move} (hnone : ∀ name, m = .commit name → t.session.attempts.get? name = none) :
    Step t m .ignored t
  | merged (x : Indicator) :
    Step t (.merge x) (.merged (t.session.windows.active.enter.merge x).1)
      { t with session.windows.active := (t.session.windows.active.enter.merge x).2.leave }
  | begun (name : String) :
    Step t (.begin name) (.granted (t.session.begin name).1) { t with session := (t.session.begin name).2 }
  /-- The attempt was refused, or it has committed before. -/
  | kept {name : String} {a : Attempt} (ha : t.session.attempts.get? name = some a) (hno : a ≠ ⟨true, false⟩) :
    Step t (.commit name) (.swapped false)
      { t with session.attempts := t.session.attempts.insert name a }
  | swapped {name : String} (ha : t.session.attempts.get? name = some ⟨true, false⟩) :
    Step t (.commit name) (.swapped true)
      { t with
        session := ⟨t.session.windows.swap, t.session.attempts.insert name ⟨true, true⟩⟩
        swaps := t.swaps + 1 }
  | released {name : String} (ha : t.session.attempts.contains name = true) :
    Step t (.release name) .done
      { t with session := ⟨t.session.windows.release, t.session.attempts.erase name⟩ }
  | drained (order : DrainOrder) (hfree : t.session.windows.retired.writers = 0) :
    Step t (.drain order) (.drained (t.session.windows.drain order).1)
      { t with session.windows := t.session.windows.drain.2 }
  | entered {name : String} (hnone : t.writers.get? name = none) :
    Step t (.enter name) .done
      { t.setWindow t.swaps (t.window t.swaps).enter with writers := t.writers.insert name t.swaps }
  | written {name : String} {n : Nat} (x : Indicator) (hn : t.writers.get? name = some n) :
    Step t (.write name x) (.merged ((t.window n).merge x).1) (t.setWindow n ((t.window n).merge x).2)
  | left {name : String} {n : Nat} (hn : t.writers.get? name = some n) :
    Step t (.leave name) .done
      { t.setWindow n (t.window n).leave with writers := t.writers.erase name }

theorem step_commit (t : Traffic) (name : String) :
    Step t (.commit name) (t.perform (.commit name)).1 (t.perform (.commit name)).2 := by
  have hperform : t.perform (.commit name) =
      match t.session.commit name with
      | (none, s) => (.ignored, { t with session := s })
      | (some false, s) => (.swapped false, { t with session := s })
      | (some true, s) => (.swapped true, { t with session := s, swaps := t.swaps + 1 }) := rfl
  have hcommit (a : Attempt) (h : t.session.attempts.get? name = some a) : t.session.commit name =
      (some (t.session.windows.commit a).1, ⟨(t.session.windows.commit a).2.2,
        t.session.attempts.insert name (t.session.windows.commit a).2.1⟩) := by
    unfold Session.commit
    rw [h]
  rw [hperform]
  cases hattempt : t.session.attempts.get? name with
  | none =>
    have hnone : t.session.commit name = (none, t.session) := by unfold Session.commit; rw [hattempt]
    rw [hnone]
    refine .ignored ?_
    rintro _ ⟨⟩
    exact hattempt
  | some a =>
    rw [hcommit a hattempt]
    by_cases ha : a = ⟨true, false⟩
    · subst ha
      exact .swapped hattempt
    · have hno : t.session.windows.commit a = (false, a, t.session.windows) := by
        obtain ⟨granted, committed⟩ := a
        cases granted <;> cases committed <;> first | rfl | exact absurd rfl ha
      rw [hno]
      exact .kept hattempt ha

theorem perform_step (t : Traffic) (m : Move) : Step t m (t.perform m).1 (t.perform m).2 := by
  cases m with
  | merge x => exact .merged x
  | begin name => exact .begun name
  | commit name => exact step_commit t name
  | release name =>
    simp only [perform, Session.release]
    cases hthere : t.session.attempts.contains name with
    | false => exact .ignored fun _ h => by cases h
    | true => exact .released hthere
  | drain order =>
    simp only [perform]
    split
    · exact .ignored fun _ h => by cases h
    · rename_i hwait
      refine .drained order ?_
      simpa [WindowPair.mustWait, Window.isWriting] using hwait
  | enter name =>
    simp only [perform]
    cases hthere : t.writers.get? name with
    | none =>
      rw [Dict.contains, hthere]
      exact .entered hthere
    | some n =>
      rw [Dict.contains, hthere]
      exact .ignored fun _ h => by cases h
  | write name x =>
    simp only [perform]
    cases hwriter : t.writers.get? name with
    | none => exact .ignored fun _ h => by cases h
    | some n => exact .written x hwriter
  | leave name =>
    simp only [perform]
    cases hwriter : t.writers.get? name with
    | none => exact .ignored fun _ h => by cases h
    | some n => exact .left hwriter

/-! ## The log -/

/-- Moves with their answers, latest first. -/
abbrev Log := List (Move × Reply)

namespace Log

/-- The number of swaps. -/
def swaps : Log → Nat
  | [] => 0
  | (.commit _, .swapped true) :: before => swaps before + 1
  | _ :: before => swaps before

/-- A window has retired and was not drained since. -/
def pending : Log → Bool
  | [] => false
  | (.commit _, .swapped true) :: _ => true
  | (.drain _, .drained _) :: _ => false
  | _ :: before => pending before

/-- The number of swaps before the writer of a name registered. -/
def held (name : String) : Log → Nat
  | [] => 0
  | (.enter writer, .done) :: before => if writer = name then swaps before else held name before
  | _ :: before => held name before

/-- The attempt of a name that is alive, as it was granted and committed. -/
def attempt? (name : String) : Log → Option Attempt
  | [] => none
  | (.begin a, .granted yes) :: before => if a = name then some ⟨yes, false⟩ else attempt? name before
  | (.commit a, .swapped true) :: before =>
    if a = name then (attempt? name before).map fun x => { x with committed := true } else attempt? name before
  | (.release a, .done) :: before => if a = name then none else attempt? name before
  | _ :: before => attempt? name before

/-- An update is taken unless it is rejected. A fault breaks it off when it is combined already. -/
def takes : Outcome (Except CombineError Unit) → Bool
  | .ok (.error _) => false
  | _ => true

/-- The updates that were taken, oldest first, each with the number of swaps that its window had seen. -/
def merges : Log → List (Nat × Indicator)
  | [] => []
  | (.merge x, .merged r) :: before => merges before ++ if takes r then [(swaps before, x)] else []
  | (.write name x, .merged r) :: before => merges before ++ if takes r then [(held name before, x)] else []
  | _ :: before => merges before

/-- The updates of one window. -/
def mergesOf (n : Nat) (log : Log) : List Indicator := (log.merges.filter (·.1 = n)).map (·.2)

/-- What the window retired last holds for its reader. -/
def waiting (log : Log) : View :=
  if log.pending then gathered (log.mergesOf (log.swaps - 1)) else fun _ => none

end Log

/-- One move after those of a log. -/
def advance (c : Log × Traffic) (m : Move) : Log × Traffic :=
  ((m, (c.2.perform m).1) :: c.1, (c.2.perform m).2)

/-- Moves, one after the other, on fresh windows. -/
def replay (moves : List Move) : Log × Traffic := moves.foldl advance ([], {})

/-- What holds of fresh windows and is kept by every step holds wherever moves lead. -/
theorem replay_invariant {P : Log → Traffic → Prop} (hfresh : P [] {})
    (hstep : ∀ {log t m r t'}, P log t → Step t m r t' → P ((m, r) :: log) t') (moves : List Move) :
    P (replay moves).1 (replay moves).2 := by
  suffices h : ∀ c : Log × Traffic, P c.1 c.2 → P (moves.foldl advance c).1 (moves.foldl advance c).2 from h _ hfresh
  induction moves with
  | nil => exact fun c hc => hc
  | cons m moves ih => exact fun c hc => ih (advance c m) (hstep hc (perform_step c.2 m))

end Traffic

end MetricCascade
