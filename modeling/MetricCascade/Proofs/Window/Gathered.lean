/-
What a window holds, whatever was merged into it. The entry of a key is the fold of the updates
merged under that key, and the size is the number of entries. An update that is rejected changes
nothing; one that a fault breaks off stays combined, with the old figure.
-/
import MetricCascade.Proofs.Window.Merge

namespace MetricCascade

open Indicator

/-- What an entry becomes when an aggregate is merged into it. Where there is none, the aggregate
becomes the entry if its figure can be computed. -/
def absorb : Option Aggregate → Aggregate → Option Aggregate
  | none, b => b.refresh.toOption
  | some a, b => some (a.join b)

/-- What updates make of entries, each key for itself, one update after the other. -/
def gathered (xs : List Indicator) : View := fun k =>
  (under k xs).foldl (fun entry x => absorb entry x.value) none

@[simp] theorem gathered_nil : gathered [] = fun _ => none := rfl

/-- One more update changes the entry of its key alone. -/
theorem gathered_append (xs : List Indicator) (x : Indicator) :
    gathered (xs ++ [x]) = Function.update (gathered xs) x.key (absorb (gathered xs x.key) x.value) := by
  funext k
  rw [Function.update_apply]
  unfold gathered
  rw [under_append]
  split
  · rename_i h
    subst h
    rw [under_singleton, List.foldl_append]
    rfl
  · rename_i h
    rw [under_singleton_of_ne h, List.append_nil]

namespace Window

variable {w : Window} {x : Indicator}

/-- How merging can go. -/
inductive Merged (w : Window) (x : Indicator) : Outcome (Except CombineError Unit) × Window → Prop
  /-- The update is the first one under its key. -/
  | first {fresh : Aggregate} (hold : w.view x.key = none) (hfresh : x.value.refresh = .ok fresh) :
    Merged w x (.ok (.ok ()), { w with entries := w.entries.insert x.key fresh, size := w.size + 1 })
  /-- It would be the first one, but its figure cannot be computed. -/
  | barred {fault : Fault} (hold : w.view x.key = none) (hfresh : x.value.refresh = .error fault) :
    Merged w x (.error fault, w)
  /-- It does not combine with the entry of its key. -/
  | misfit {old : Aggregate} {e : Misfit} (hold : w.view x.key = some old) (hjoin : old.combine x.value = .error e) :
    Merged w x (.ok (.error (.misfit e)), w)
  /-- It is combined with the entry of its key. -/
  | joined {old joined fresh : Aggregate} (hold : w.view x.key = some old) (hjoin : old.combine x.value = .ok joined)
    (hfresh : joined.refresh = .ok fresh) :
    Merged w x (.ok (.ok ()), { w with entries := w.entries.insert x.key fresh })
  /-- It is combined, but the figure of both cannot be computed. -/
  | broken {old joined : Aggregate} {fault : Fault} (hold : w.view x.key = some old)
    (hjoin : old.combine x.value = .ok joined) (hfresh : joined.refresh = .error fault) :
    Merged w x (.error fault, { w with entries := w.entries.insert x.key joined })

theorem merge_cases (w : Window) (x : Indicator) : Merged w x (w.merge x) := by
  unfold merge
  cases hold : w.entries.get? x.key with
  | none =>
    dsimp only
    cases hfresh : x.value.refresh with
    | error fault => exact .barred hold hfresh
    | ok fresh => exact .first hold hfresh
  | some old =>
    dsimp only
    cases hjoin : old.combine x.value with
    | error e => exact .misfit hold hjoin
    | ok joined =>
      dsimp only
      cases hfresh : joined.refresh with
      | error fault => exact .broken hold hjoin hfresh
      | ok fresh => exact .joined hold hjoin hfresh

/-- Whatever becomes of an update, the entry of its key absorbs it, and no other entry changes. -/
theorem merge_view (w : Window) (x : Indicator) :
    (w.merge x).2.view = Function.update w.view x.key (absorb (w.view x.key) x.value) := by
  have hcases := merge_cases w x
  generalize w.merge x = result at hcases ⊢
  cases hcases with
  | first hold hfresh =>
    rw [hold, absorb, hfresh]
    exact view_insert ..
  | barred hold hfresh =>
    rw [hold, absorb, hfresh, Except.toOption, ← hold, Function.update_eq_self]
  | misfit hold hjoin =>
    simp only [hold, absorb, Aggregate.join, hjoin]
    rw [← hold, Function.update_eq_self]
  | joined hold hjoin hfresh =>
    simp only [hold, absorb, Aggregate.join, Aggregate.current, hjoin, hfresh]
    exact view_insert ..
  | broken hold hjoin hfresh =>
    simp only [hold, absorb, Aggregate.join, Aggregate.current, hjoin, hfresh]
    exact view_insert ..

/-- An update that is rejected changes nothing. -/
theorem merge_rejected {e : CombineError} (h : (w.merge x).1 = .ok (.error e)) : (w.merge x).2 = w := by
  have hcases := merge_cases w x
  generalize w.merge x = result at hcases h ⊢
  cases hcases <;> first | rfl | cases h

/-- Merging changes neither who is registered nor whether the window is being read. -/
theorem merge_kept (w : Window) (x : Indicator) :
    (w.merge x).2.writers = w.writers ∧ (w.merge x).2.reading = w.reading := by
  have hcases := merge_cases w x
  generalize w.merge x = result at hcases ⊢
  cases hcases <;> exact ⟨rfl, rfl⟩

/-- The size is the number of entries. -/
def Counted (w : Window) : Prop := w.size = w.entries.size

/-- Merging adds an entry if there was none, and counts it. -/
theorem merge_counted (hw : w.Counted) (x : Indicator) :
    (w.merge x).2.Counted ∧ (w.merge x).2.size ≤ w.size + 1 := by
  have hinsert (a : Aggregate) : (w.entries.insert x.key a).size = if (w.view x.key).isSome then w.size else w.size + 1 := by
    rw [Dict.size_insert, ← hw]
    rfl
  have hcases := merge_cases w x
  generalize w.merge x = result at hcases ⊢
  unfold Counted at hw ⊢
  cases hcases with
  | first hold hfresh => simp [hinsert, hold]
  | barred hold hfresh => simp [hw]
  | misfit hold hjoin => simp [hw]
  | joined hold hjoin hfresh => simp [hinsert, hold]
  | broken hold hjoin hfresh => simp [hinsert, hold]

end Window

end MetricCascade
