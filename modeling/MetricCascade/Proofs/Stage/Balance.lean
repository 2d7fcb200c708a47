/-
What is stored and what waits, against all that was submitted. Stored and waiting aggregates under a
key add up to the submissions under it, before and after an update is merged and before and after
the waiting ones are settled into the stored ones.
-/
import MetricCascade.Proofs.Metric.Gather
import MetricCascade.Proofs.Table.View

namespace MetricCascade

open Indicator

/-- The raw figures of what may be there. -/
def weight : Option Aggregate → Raw
  | none => 0
  | some a => a.raw

@[simp] theorem weight_none : weight none = 0 := rfl

@[simp] theorem weight_some (a : Aggregate) : weight (some a) = a.raw := rfl

/-- `v` is stored and `w` waits: together they hold `H`, in current aggregates of the forms `φ`. -/
structure Balanced (φ : Key → Form) (v w : View) (H : List Indicator) : Prop where
  stored : ∀ k a, v k = some a → a.Current (φ k)
  waiting : ∀ k a, w k = some a → a.Current (φ k)
  content : ∀ k, weight (v k) + weight (w k) = rawSum (under k H)
  present : ∀ k, v k = none ∧ w k = none ↔ under k H = []

namespace Balanced

variable {φ : Key → Form} {v w : View} {H : List Indicator}

theorem initial (φ : Key → Form) : Balanced φ (fun _ => none) (fun _ => none) [] where
  stored _ _ h := by cases h
  waiting _ _ h := by cases h
  content _ := by simp [under]
  present _ := by simp [under]

end Balanced

/-! ## Merging -/

/-- What waits after an update was merged: the update itself, or joined to what waited. -/
def mergeInto (w : View) (x : Indicator) : View :=
  Function.update w x.key (some (match w x.key with
    | none => x.value.current
    | some a => a.join x.value))

theorem mergeInto_of_ne {w : View} {x : Indicator} {k : Key} (h : k ≠ x.key) : mergeInto w x k = w k :=
  Function.update_of_ne h _ _

theorem under_singleton (x : Indicator) : under x.key [x] = [x] := by simp [under]

theorem under_singleton_of_ne {x : Indicator} {k : Key} (h : k ≠ x.key) : under k [x] = [] := by
  simp [under, Ne.symm h]

/-- Merging an update adds its raw figures under its key. -/
theorem mergeInto_self {φ : Key → Form} {w : View} {x : Indicator}
    (hw : ∀ a, w x.key = some a → a.Current (φ x.key)) (hx : x.value.Proper) (hf : x.value.form = φ x.key) :
    ∃ a, mergeInto w x x.key = some a ∧ a.Current (φ x.key) ∧ a.raw = weight (w x.key) + x.value.raw := by
  unfold mergeInto
  rw [Function.update_self]
  cases hwk : w x.key with
  | none =>
    obtain ⟨hcur, hraw⟩ := Aggregate.current_spec hx
    exact ⟨_, rfl, hf ▸ hcur, by rw [hraw, weight_none, zero_add]⟩
  | some a =>
    have ha := hw a hwk
    obtain ⟨-, -, -, hcur, hraw⟩ := Aggregate.join_spec ha.proper hx ha.form hf
    exact ⟨_, rfl, hcur, hraw⟩

theorem Balanced.merge {φ : Key → Form} {v w : View} {H : List Indicator} {x : Indicator} (h : Balanced φ v w H)
    (hx : x.value.Proper) (hf : x.value.form = φ x.key) : Balanced φ v (mergeInto w x) (H ++ [x]) := by
  obtain ⟨b, hb, hcur, hraw⟩ := mergeInto_self (h.waiting x.key) hx hf
  refine ⟨h.stored, fun k a ha => ?_, fun k => ?_, fun k => ?_⟩
  · -- only the key of the update changes, in the window as in the history
    by_cases hk : k = x.key
    · subst hk
      rw [hb] at ha
      exact Option.some.inj ha ▸ hcur
    · rw [mergeInto_of_ne hk] at ha
      exact h.waiting k a ha
  · by_cases hk : k = x.key
    · subst hk
      rw [hb, weight_some, hraw, under_append, rawSum_append, ← h.content, under_singleton, add_assoc]
      simp
    · rw [mergeInto_of_ne hk, under_append, under_singleton_of_ne hk, List.append_nil]
      exact h.content k
  · by_cases hk : k = x.key
    · subst hk
      simp [hb, under_append, under_singleton]
    · rw [mergeInto_of_ne hk, under_append, under_singleton_of_ne hk, List.append_nil]
      exact h.present k

/-! ## Settling -/

/-- What is stored after everything that waits was added to it. -/
def settled (v w : View) : View := fun k =>
  match w k with
  | none => v k
  | some a =>
    match v k with
    | none => some a
    | some s => some (a.join s)

/-- Settling adds up what is stored and what waits. -/
theorem settled_spec {f : Form} {v w : View} {k : Key} (hv : ∀ a, v k = some a → a.Current f)
    (hw : ∀ a, w k = some a → a.Current f) :
    (∀ a, settled v w k = some a → a.Current f) ∧ weight (settled v w k) = weight (v k) + weight (w k) ∧
      (settled v w k = none ↔ v k = none ∧ w k = none) := by
  unfold settled
  cases hwk : w k with
  | none => exact ⟨hv, (add_zero _).symm, by simp⟩
  | some a =>
    have ha := hw a hwk
    cases hvk : v k with
    | none =>
      refine ⟨?_, (zero_add _).symm, by simp⟩
      rintro b ⟨⟩
      exact ha
    | some s =>
      have hs := hv s hvk
      obtain ⟨-, -, -, hcur, hraw⟩ := Aggregate.join_spec ha.proper hs.proper ha.form hs.form
      refine ⟨?_, hraw.trans (add_comm _ _), by simp⟩
      rintro b ⟨⟩
      exact hcur

namespace Balanced

variable {φ : Key → Form} {v w : View} {H : List Indicator}

theorem settle (h : Balanced φ v w H) : Balanced φ (settled v w) (fun _ => none) H where
  stored k := (settled_spec (h.stored k) (h.waiting k)).1
  waiting _ _ h := by cases h
  content k := by
    obtain ⟨-, hweight, -⟩ := settled_spec (h.stored k) (h.waiting k)
    rw [hweight, weight_none, add_zero, h.content]
  present k := by
    obtain ⟨-, -, hnone⟩ := settled_spec (h.stored k) (h.waiting k)
    rw [hnone, and_iff_left rfl, h.present]

/-! ## Reading the balance -/

/-- What is stored and what waits under a key combine to what was submitted under it. -/
theorem combineAll_eq (h : Balanced φ v w H) (hH : ∀ x ∈ H, x.value.Proper ∧ x.value.form = φ x.key) (k : Key) :
    combineAll (((v k).map (Indicator.mk k)).toList ++ ((w k).map (Indicator.mk k)).toList) =
      combineAll (under k H) := by
  by_cases hnone : under k H = []
  · obtain ⟨hv, hw⟩ := (h.present k).2 hnone
    rw [hnone, hv, hw]
    rfl
  -- the settled aggregate is the one that both sides combine to
  obtain ⟨hcur, hweight, habsent⟩ := settled_spec (h.stored k) (h.waiting k)
  obtain ⟨a, ha⟩ : ∃ a, settled v w k = some a := by
    rw [← Option.ne_none_iff_exists', ne_eq, habsent, h.present]
    exact hnone
  have hraw : a.raw = weight (v k) + weight (w k) := by rw [← hweight, ha, weight_some]
  have hright : combineAll (under k H) = some ⟨k, a⟩ := by
    refine Indicator.combineAll_eq hnone (fun x hx => ?_) (hcur a ha) (hraw.trans (h.content k))
    obtain ⟨hxH, rfl⟩ := mem_under.1 hx
    obtain ⟨hproper, hform⟩ := hH x hxH
    exact ⟨rfl, hproper, hform⟩
  rw [hright]
  refine Indicator.combineAll_eq ?_ (fun x hx => ?_) (hcur a ha) ?_
  · intro hempty
    obtain ⟨hv, hw⟩ := List.append_eq_nil_iff.1 hempty
    refine hnone ((h.present k).1 ⟨?_, ?_⟩)
    · exact Option.map_eq_none_iff.1 (Option.toList_eq_nil_iff.1 hv)
    · exact Option.map_eq_none_iff.1 (Option.toList_eq_nil_iff.1 hw)
  · rcases List.mem_append.1 hx with hx | hx <;>
      obtain ⟨b, hb, rfl⟩ := Option.map_eq_some_iff.1 (Option.mem_toList.1 hx)
    · exact ⟨rfl, (h.stored k b hb).proper, (h.stored k b hb).form⟩
    · exact ⟨rfl, (h.waiting k b hb).proper, (h.waiting k b hb).form⟩
  · rw [hraw, rawSum_append]
    cases v k <;> cases w k <;> simp

/-- With nothing waiting, what is stored under a key is what was submitted under it, combined. -/
theorem stored_eq (h : Balanced φ v (fun _ => none) H)
    (hH : ∀ x ∈ H, x.value.Proper ∧ x.value.form = φ x.key) (k : Key) :
    (v k).map (Indicator.mk k) = combineAll (under k H) := by
  rw [← h.combineAll_eq hH k]
  cases hv : v k with
  | none => rfl
  | some a =>
    have ha := h.stored k a hv
    refine (Indicator.combineAll_eq (List.cons_ne_nil _ _) (fun x hx => ?_) ha ?_).symm
    · obtain rfl : x = ⟨k, a⟩ := by simpa using hx
      exact ⟨rfl, ha.proper, ha.form⟩
    · simp

/-- What is stored depends neither on the order of the submissions nor on when they were settled. -/
theorem unique {v' : View} {H' : List Indicator} (h : Balanced φ v (fun _ => none) H)
    (h' : Balanced φ v' (fun _ => none) H') (hperm : H.Perm H') : v = v' := by
  funext k
  have hunder : (under k H).Perm (under k H') := hperm.filter _
  have hcontent : weight (v k) = weight (v' k) := by
    have h1 := h.content k
    have h2 := h'.content k
    rw [weight_none, add_zero] at h1 h2
    rw [h1, h2, rawSum_perm hunder]
  have habsent : v k = none ↔ v' k = none := by
    have h1 := h.present k
    have h2 := h'.present k
    rw [and_iff_left rfl] at h1 h2
    rw [h1, h2]
    constructor
    · intro hnone
      rw [hnone] at hunder
      exact hunder.symm.eq_nil
    · intro hnone
      rw [hnone] at hunder
      exact hunder.eq_nil
  cases hv : v k with
  | none => exact (habsent.1 hv).symm
  | some a =>
    cases hv' : v' k with
    | none => rw [habsent.2 hv'] at hv; cases hv
    | some a' =>
      rw [hv, hv'] at hcontent
      rw [(h.stored k a hv).eq_of_raw (h'.stored k a' hv') hcontent]

end Balanced

end MetricCascade
