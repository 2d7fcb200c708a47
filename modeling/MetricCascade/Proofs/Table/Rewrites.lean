/-
Rows that are written anew. Of all that is written under a key only the last stays; what was written
before it is superseded.
-/
import MetricCascade.Proofs.Table.View

namespace MetricCascade

namespace Store

/-- Those of some indicators after which none of the same key follows. -/
def latest : List Indicator → List Indicator
  | [] => []
  | x :: rest => if ∃ y ∈ rest, y.key = x.key then latest rest else x :: latest rest

theorem latest_cons (x : Indicator) (rest : List Indicator) :
    latest (x :: rest) = if ∃ y ∈ rest, y.key = x.key then latest rest else x :: latest rest := rfl

/-- Those of some indicators after which another of the same key follows. -/
def superseded : List Indicator → List Indicator
  | [] => []
  | x :: rest => if ∃ y ∈ rest, y.key = x.key then x :: superseded rest else superseded rest

theorem latest_append_superseded_perm (xs : List Indicator) : (latest xs ++ superseded xs).Perm xs := by
  induction xs with
  | nil => exact .nil
  | cons x xs ih =>
    unfold latest superseded
    split
    · exact List.perm_middle.trans (ih.cons x)
    · exact ih.cons x

theorem mem_of_mem_latest {xs : List Indicator} {x : Indicator} (h : x ∈ latest xs) : x ∈ xs :=
  (latest_append_superseded_perm xs).subset (List.mem_append_left _ h)

/-- Of every key the last one is left. -/
theorem exists_latest {xs : List Indicator} {x : Indicator} (h : x ∈ xs) : ∃ y ∈ latest xs, y.key = x.key := by
  induction xs generalizing x with
  | nil => cases h
  | cons z xs ih =>
    rw [latest_cons]
    split
    · rename_i hlater
      rcases List.mem_cons.1 h with rfl | h
      · obtain ⟨y, hy, hkey⟩ := hlater
        obtain ⟨y', hy', hkey'⟩ := ih hy
        exact ⟨y', hy', hkey'.trans hkey⟩
      · exact ih h
    · rcases List.mem_cons.1 h with rfl | h
      · exact ⟨x, List.mem_cons_self .., rfl⟩
      · obtain ⟨y, hy, hkey⟩ := ih h
        exact ⟨y, List.mem_cons_of_mem _ hy, hkey⟩

theorem nodup_latest (xs : List Indicator) : ((latest xs).map (·.key)).Nodup := by
  induction xs with
  | nil => exact .nil
  | cons x xs ih =>
    unfold latest
    split
    · exact ih
    · rename_i hlast
      rw [List.map_cons, List.nodup_cons]
      refine ⟨fun hmem => ?_, ih⟩
      obtain ⟨y, hy, hkey⟩ := List.mem_map.1 hmem
      exact hlast ⟨y, mem_of_mem_latest hy, hkey⟩

/-- What is there after a list was laid over a view is the last of the list, or of the view. -/
theorem overlay_eq_some_iff {v : View} {xs : List Indicator} {x : Indicator} :
    overlay v xs x.key = some x.value ↔ x ∈ latest xs ∨ (v x.key = some x.value ∧ ∀ y ∈ xs, y.key ≠ x.key) := by
  induction xs generalizing v with
  | nil => simp [overlay, latest]
  | cons y xs ih =>
    have hcons : overlay v (y :: xs) = overlay (Function.update v y.key (some y.value)) xs := rfl
    rw [hcons, ih]
    by_cases hkey : y.key = x.key
    · have hself : Function.update v y.key (some y.value) x.key = some y.value := by rw [hkey, Function.update_self]
      have hright : ¬ (v x.key = some x.value ∧ ∀ z ∈ y :: xs, z.key ≠ x.key) :=
        fun h => h.2 y (List.mem_cons_self ..) hkey
      rw [hself, or_iff_left hright, Option.some.injEq, latest_cons]
      split
      · rename_i hlater
        obtain ⟨z, hz, hzkey⟩ := hlater
        exact or_iff_left fun h => h.2 z hz (hzkey.trans hkey)
      · rename_i hlast
        have hxy : (y.value = x.value ∧ ∀ z ∈ xs, z.key ≠ x.key) ↔ x = y := by
          constructor
          · rintro ⟨hvalue, -⟩
            obtain ⟨key, value⟩ := y
            obtain rfl : key = x.key := hkey
            obtain rfl : value = x.value := hvalue
            rfl
          · rintro rfl
            exact ⟨rfl, fun z hz hzkey => hlast ⟨z, hz, hzkey⟩⟩
        rw [hxy, List.mem_cons, or_comm]
    · have hne : x ≠ y := fun heq => hkey (heq ▸ rfl)
      have hlatest : x ∈ latest (y :: xs) ↔ x ∈ latest xs := by
        rw [latest_cons]
        split
        · rfl
        · rw [List.mem_cons, or_iff_right hne]
      rw [Function.update_of_ne (Ne.symm hkey), hlatest, List.forall_mem_cons, and_iff_right hkey]

end Store

end MetricCascade
