/-
Indicators taken together in any order and grouping. A plan combines indicators two at a time and computes
figures on the way or not; what it comes to, once its figure is computed, depends on the indicators alone.
The reason is that a combination is a sum of raw figures, and that figures which are out of date take no part
in what is computed later.
-/
import MetricCascade.Proofs.Metric.Gather

namespace MetricCascade

namespace Indicator

variable {k : Key} {f : Form} {r : Raw} {x y : Indicator}

theorem Sums.own (hx : Sums k f r x) : Sums x.key f x.value.raw x := ⟨rfl, hx.proper, hx.form, rfl⟩

/-- The figure that is computed does not depend on the one that was there. -/
theorem Sums.refresh_eq (hx : Sums k f r x) (hy : Sums k f r y) : x.refresh = y.refresh := by
  have hvalue := Aggregate.refresh_eq_of_raw hx.proper hy.proper (hx.form.trans hy.form.symm) (hx.raw.trans hy.raw.symm)
  unfold Indicator.refresh
  rw [hvalue, hx.key, hy.key]

/-- An indicator as single observations and their combinations make it, its figure computed or not. -/
inductive Made : Indicator → Prop
  | observed {x : Indicator} (h : x.Observed) : Made x
  | combined {x y z : Indicator} (hx : Made x) (hy : Made y) (h : x.combine y = .ok z) : Made z
  | refreshed {x y : Indicator} (hx : Made x) (h : x.refresh = .ok y) : Made y

theorem Made.proper (h : x.Made) : x.value.Proper := by
  induction h with
  | observed h => exact h.proper
  | @combined x y z _ _ h ihx ihy =>
    unfold Indicator.combine at h
    split at h
    · cases hj : x.value.combine y.value with
      | error e => rw [hj] at h; cases h
      | ok j =>
        rw [hj] at h
        cases h
        exact Aggregate.Proper.combine ihx ihy hj
    · cases h
  | @refreshed x y _ h ih =>
    obtain ⟨a, ha, hcurrent, -⟩ := Aggregate.refresh_proper ih
    unfold Indicator.refresh at h
    rw [ha] at h
    cases h
    exact hcurrent.proper

theorem Made.sums (h : x.Made) (hform : x.value.form = f) : Sums x.key f x.value.raw x := ⟨rfl, h.proper, hform, rfl⟩

/-! ## Plans -/

/-- A way to take indicators together. -/
inductive Plan where
  | single (x : Indicator)
  /-- Adds what the second plan comes to to what the first one does. -/
  | combined (first second : Plan)
  /-- Computes the figure of what the plan comes to. -/
  | refreshed (plan : Plan)

namespace Plan

/-- The indicators that are taken together, each as often as it is. -/
def inputs : Plan → List Indicator
  | single x => [x]
  | combined p q => p.inputs ++ q.inputs
  | refreshed p => p.inputs

/-- What the plan comes to; `none` if two indicators do not combine or a figure cannot be computed. -/
def result : Plan → Option Indicator
  | single x => some x
  | combined p q => p.result.bind fun x => q.result.bind fun y => x.combine? y
  | refreshed p => p.result.bind fun x => x.refresh.toOption

/-- Wherever it computes figures, a plan comes to a sum of its inputs. -/
theorem result_sums (p : Plan) (h : ∀ x ∈ p.inputs, Sums k f x.value.raw x) :
    ∃ z, p.result = some z ∧ Sums k f (rawSum p.inputs) z := by
  induction p with
  | single x => exact ⟨x, rfl, by simpa [inputs] using h x (List.mem_singleton_self x)⟩
  | combined p q ihp ihq =>
    obtain ⟨x, hx, hsumx⟩ := ihp fun x hx => h x (List.mem_append_left _ hx)
    obtain ⟨y, hy, hsumy⟩ := ihq fun y hy => h y (List.mem_append_right _ hy)
    obtain ⟨z, hz, hsum⟩ := hsumx.combine hsumy
    refine ⟨z, ?_, ?_⟩
    · simp only [result, hx, hy, Option.bind_some, combine?, hz]
      rfl
    · rw [inputs, rawSum_append]
      exact hsum
  | refreshed p ih =>
    obtain ⟨x, hx, hsumx⟩ := ih h
    obtain ⟨z, hz, hsum, -⟩ := hsumx.refresh
    refine ⟨z, ?_, hsum⟩
    simp only [result, hx, Option.bind_some, hz]
    rfl

/-- The plan that goes through a list from the first indicator on. -/
def through (p : Plan) (xs : List Indicator) : Plan := xs.foldl (fun p x => combined p (single x)) p

theorem inputs_through (p : Plan) (xs : List Indicator) : (p.through xs).inputs = p.inputs ++ xs := by
  induction xs generalizing p with
  | nil => exact (List.append_nil _).symm
  | cons x xs ih =>
    have hstep := ih (combined p (single x))
    rw [inputs, List.append_assoc] at hstep
    exact hstep

theorem result_through (p : Plan) (xs : List Indicator) :
    (p.through xs).result = p.result.bind fun x => xs.foldlM combine? x := by
  induction xs generalizing p with
  | nil => exact (Option.bind_fun_some _).symm
  | cons x xs ih =>
    have hstep := ih (combined p (single x))
    rw [result, Option.bind_assoc] at hstep
    exact hstep

/-- Combining all of a list from the first on is such a plan, with the figure computed at the end. -/
theorem result_refreshed_through (x : Indicator) (xs : List Indicator) :
    ((single x).through xs).refreshed.result = combineAll (x :: xs) := by
  rw [result, result_through]
  rfl

/-- Plans whose inputs are the same but for their order come to the same once the figure is computed. -/
theorem result_refreshed_eq {p p' : Plan} (h : ∀ x ∈ p.inputs, Sums k f x.value.raw x) (hperm : p.inputs.Perm p'.inputs) :
    p.refreshed.result = p'.refreshed.result := by
  obtain ⟨x, hx, hsumx⟩ := p.result_sums h
  obtain ⟨y, hy, hsumy⟩ := p'.result_sums fun x hx => h x (hperm.symm.subset hx)
  rw [← rawSum_perm hperm] at hsumy
  simp only [result, hx, hy, Option.bind_some, hsumx.refresh_eq hsumy]

end Plan

/-- Indicators of one key and form that are made of observations come to the same in every order and grouping,
whether figures are computed after each step, after some, or only at the end: to the indicator with their summed raw
figures and an up-to-date figure. In particular combining them commutes and associates up to that last computation. -/
theorem grouping_immaterial {xs : List Indicator} (hne : xs ≠ [])
    (hxs : ∀ x ∈ xs, x.key = k ∧ x.Made ∧ x.value.form = f) :
    (∃ z, (∀ p : Plan, p.inputs.Perm xs → p.refreshed.result = some z) ∧ combineAll xs = some z ∧
      z.key = k ∧ z.value.form = f ∧ z.value.raw = rawSum xs ∧ z.refresh = .ok z) ∧
    (∀ x ∈ xs, ∀ y ∈ xs, ∃ u v z, x.combine y = .ok u ∧ y.combine x = .ok v ∧
      u.refresh = .ok z ∧ v.refresh = .ok z) ∧
    (∀ x ∈ xs, ∀ y ∈ xs, ∀ w ∈ xs, ∃ xy yw u v z, x.combine y = .ok xy ∧ y.combine w = .ok yw ∧
      xy.combine w = .ok u ∧ x.combine yw = .ok v ∧ u.refresh = .ok z ∧ v.refresh = .ok z) := by
  have hsums : ∀ x ∈ xs, Sums k f x.value.raw x := by
    intro x hx
    obtain ⟨hkey, hmade, hform⟩ := hxs x hx
    exact hkey ▸ hmade.sums hform
  refine ⟨?_, ?_, ?_⟩
  · obtain ⟨first, rest, rfl⟩ := List.exists_cons_of_ne_nil hne
    have hinputs : ((Plan.single first).through rest).inputs = first :: rest := Plan.inputs_through _ _
    obtain ⟨x, hx, hsumx⟩ := Plan.result_sums ((Plan.single first).through rest) (hinputs ▸ hsums)
    obtain ⟨z, hz, hsum, hcurrent⟩ := hsumx.refresh
    have hall : combineAll (first :: rest) = some z := by
      rw [← Plan.result_refreshed_through, Plan.result, hx, Option.bind_some, hz]
      rfl
    refine ⟨z, fun p hp => ?_, hall, hsum.key, hsum.form, hinputs ▸ hsum.raw, ?_⟩
    · rw [← hall, ← Plan.result_refreshed_through]
      exact Plan.result_refreshed_eq (fun y hy => hsums y (hp.subset hy)) (hinputs ▸ hp)
    · unfold Indicator.refresh
      rw [hcurrent.fresh]
      rfl
  · intro x hx y hy
    obtain ⟨u, hu, hsumu⟩ := (hsums x hx).combine (hsums y hy)
    obtain ⟨v, hv, hsumv⟩ := (hsums y hy).combine (hsums x hx)
    obtain ⟨z, hz, -⟩ := hsumu.refresh
    rw [add_comm] at hsumv
    exact ⟨u, v, z, hu, hv, hz, hsumu.refresh_eq hsumv ▸ hz⟩
  · intro x hx y hy w hw
    obtain ⟨xy, hxy, hsumxy⟩ := (hsums x hx).combine (hsums y hy)
    obtain ⟨yw, hyw, hsumyw⟩ := (hsums y hy).combine (hsums w hw)
    obtain ⟨u, hu, hsumu⟩ := hsumxy.combine (hsums w hw)
    obtain ⟨v, hv, hsumv⟩ := (hsums x hx).combine hsumyw
    obtain ⟨z, hz, -⟩ := hsumu.refresh
    rw [← add_assoc] at hsumv
    exact ⟨xy, yw, u, v, z, hxy, hyw, hu, hv, hz, hsumu.refresh_eq hsumv ▸ hz⟩

/-- One call of so many milliseconds, for the median in steps of ten. -/
def medianOf (ms : Int) : Indicator := .percentile "checkout" ⟨202403151427⟩ ms 10 50

theorem medianOf_made {ms : Int} (h : IsInt64 ms) : (medianOf ms).Made :=
  .observed (.percentile (by decide) h (by decide) (by decide))

/-- The last two of three calls first, with their median, and then the first. -/
def medianPlan : Plan :=
  .combined (.refreshed (.combined (.single (medianOf 31)) (.single (medianOf 12)))) (.single (medianOf 34))

/-- The plan comes to the median of all three calls. -/
theorem grouping_immaterial_threeCalls :
    [medianOf 34, medianOf 12, medianOf 31] ≠ [] ∧
      (∀ x ∈ [medianOf 34, medianOf 12, medianOf 31],
        x.key = ⟨"checkout", ⟨202403151427⟩⟩ ∧ x.Made ∧ x.value.form = (.percentile, some (10, 50))) ∧
      medianPlan.refreshed.result =
        some ⟨⟨"checkout", ⟨202403151427⟩⟩, .percentile ⟨10, 50, [⟨1, 1⟩, ⟨3, 2⟩], 30⟩⟩ := by
  have hne : [medianOf 34, medianOf 12, medianOf 31] ≠ [] := List.cons_ne_nil _ _
  have hmade : ∀ x ∈ [medianOf 34, medianOf 12, medianOf 31],
      x.key = ⟨"checkout", ⟨202403151427⟩⟩ ∧ x.Made ∧ x.value.form = (.percentile, some (10, 50)) := by
    intro x hx
    simp only [List.mem_cons, List.not_mem_nil, or_false] at hx
    rcases hx with rfl | rfl | rfl <;> exact ⟨rfl, medianOf_made (by decide), rfl⟩
  obtain ⟨⟨z, hplans, hall, -⟩, -⟩ := grouping_immaterial hne hmade
  have hmedian : combineAll [medianOf 34, medianOf 12, medianOf 31] =
      some ⟨⟨"checkout", ⟨202403151427⟩⟩, .percentile ⟨10, 50, [⟨1, 1⟩, ⟨3, 2⟩], 30⟩⟩ := by decide +kernel
  refine ⟨hne, hmade, ?_⟩
  rw [hplans medianPlan (List.reverse_perm [medianOf 34, medianOf 12, medianOf 31]), ← hall]
  exact hmedian

end Indicator

end MetricCascade
