/-
Indicators combined one after the other, with the figure calculated after each. Combining does not look
at the figure, and calculating changes nothing else. So calculating once at the end gives the same, unless
no bin of a percentile holds the figure: then the one that was there stays, wherever it comes from.
-/
import MetricCascade.Proofs.Metric.Gather

namespace MetricCascade

namespace Aggregate

/-! ## All but the figure -/

/-- The aggregate with another figure. The figure of a count is all there is of it, and stays. -/
def setFigure (n : Int) : Aggregate → Aggregate
  | count m => count m
  | average a => average { a with value := n }
  | share s => share { s with percentage := n }
  | percentile h => percentile { h with value := n }

/-- The figure can be read off: where it is a percentile, some bin holds it. -/
def Readable : Aggregate → Prop
  | percentile h => Histogram.firstReaching h.threshold 0 h.bins ≠ none
  | _ => True

variable {a b j : Aggregate}

@[simp] theorem setFigure_figure (a : Aggregate) : a.setFigure a.figure = a := by cases a <;> rfl

@[simp] theorem setFigure_setFigure (m n : Int) (a : Aggregate) : (a.setFigure m).setFigure n = a.setFigure n := by
  cases a <;> rfl

/-- Aggregates combine if and only if their forms agree. -/
theorem combine_isOk_iff : (∃ j, a.combine b = .ok j) ↔ a.form = b.form := by
  cases a <;> cases b <;> simp [combine, form, measure, shape]
  case percentile.percentile h g =>
    show (∃ j, (if h.SameShape g then _ else _) = _) ↔ h.SameShape g
    split <;> simp [*]

theorem combine_isError_iff : (∃ e, a.combine b = .error e) ↔ a.form ≠ b.form := by
  rw [ne_eq, ← combine_isOk_iff]
  cases a.combine b <;> simp

/-- Combining does not look at the figure. -/
theorem combine_setFigure (n : Int) (h : a.combine b = .ok j) : (a.setFigure n).combine b = .ok (j.setFigure n) := by
  cases a <;> cases b <;> simp only [combine, reduceCtorEq] at h
  case percentile.percentile f g =>
    split at h <;> cases h
    rename_i hsame
    exact if_pos hsame
  all_goals cases h; rfl

/-- Computing the figure changes nothing else. -/
theorem refresh_eq_setFigure (h : a.refresh = .ok b) : a.setFigure b.figure = b := by
  cases a with
  | count n => cases h; rfl
  | average a =>
    simp only [refresh, Average.refresh] at h
    split at h
    · cases h; rfl
    · split at h <;> cases h
      rfl
  | share s => cases h; rfl
  | percentile h =>
    cases h
    unfold Histogram.refresh
    split <;> rfl

/-- The figure is computed without the one that was there, which stays if none can be read off. -/
theorem refresh_setFigure (n : Int) (h : a.refresh = .ok b) :
    (a.setFigure n).refresh = .ok b ∨ ¬b.Readable ∧ (a.setFigure n).refresh = .ok (b.setFigure n) := by
  cases a with
  | count m => exact .inl h
  | average a => exact .inl h
  | share s => exact .inl h
  | percentile g =>
    cases h
    cases hfirst : Histogram.firstReaching g.threshold 0 g.bins with
    | some bin =>
      have hread : g.refresh = { g with value := clampInt32 (bin.bucket * g.precision) } := Histogram.refresh_eq hfirst
      have hother : Histogram.refresh { g with value := n } = { g with value := clampInt32 (bin.bucket * g.precision) } :=
        Histogram.refresh_eq hfirst
      left
      simp only [setFigure, refresh, hread, hother]
    | none =>
      have hkept : Histogram.refresh { g with value := n } = { g with value := n } := Histogram.refresh_eq_self hfirst
      rw [Histogram.refresh_eq_self hfirst]
      right
      constructor
      · exact not_not_intro hfirst
      · simp only [setFigure, refresh, hkept]

/-- Computing the figure a second time changes nothing. -/
theorem refresh_refresh (h : a.refresh = .ok b) : b.refresh = .ok b := by
  have hagain := refresh_setFigure b.figure h
  rw [refresh_eq_setFigure h, setFigure_figure] at hagain
  exact hagain.elim id And.right

end Aggregate

namespace Indicator

/-! ## Folds -/

/-- Combines an indicator with the next one and computes the figure. -/
def joined? (t x : Indicator) : Option Indicator := (combine? t x).bind fun j => j.refresh.toOption

/-- Combines indicators from the first on and computes the figure after each; `none` if there is none,
or two of them do not combine, or a figure cannot be computed. -/
def folded : List Indicator → Option Indicator
  | [] => none
  | x :: rest => x.refresh.toOption.bind fun t => rest.foldlM joined? t

variable {t x y z : Indicator} {xs rest : List Indicator}

theorem combine?_eq_some : combine? x y = some z ↔
    x.key = y.key ∧ x.key = z.key ∧ x.value.combine y.value = .ok z.value := by
  unfold combine? Indicator.combine
  obtain ⟨k, a⟩ := z
  split
  · rename_i hkey
    cases x.value.combine y.value <;> simp [Except.toOption, hkey]
  · rename_i hkey
    simp [Except.toOption, hkey]

theorem refresh_eq_some : x.refresh.toOption = some z ↔ x.key = z.key ∧ x.value.refresh = .ok z.value := by
  unfold Indicator.refresh
  obtain ⟨k, a⟩ := z
  cases x.value.refresh <;> simp [Except.toOption, Except.map]

theorem joined?_eq_some : joined? t x = some z ↔ t.key = x.key ∧ t.key = z.key ∧
    ∃ j, t.value.combine x.value = .ok j ∧ j.refresh = .ok z.value := by
  unfold joined?
  rw [Option.bind_eq_some_iff]
  constructor
  · rintro ⟨j, hjoin, hfresh⟩
    obtain ⟨hkey, hj, hcombine⟩ := combine?_eq_some.1 hjoin
    obtain ⟨hz, hrefresh⟩ := refresh_eq_some.1 hfresh
    exact ⟨hkey, hj.trans hz, j.value, hcombine, hrefresh⟩
  · rintro ⟨hkey, hz, j, hcombine, hrefresh⟩
    exact ⟨⟨t.key, j⟩, combine?_eq_some.2 ⟨hkey, rfl, hcombine⟩, refresh_eq_some.2 ⟨hz, hrefresh⟩⟩

theorem folded_append (hne : xs ≠ []) (x : Indicator) : folded (xs ++ [x]) = (folded xs).bind fun t => joined? t x := by
  obtain ⟨y, rest, rfl⟩ := List.exists_cons_of_ne_nil hne
  rw [List.cons_append, folded, folded, Option.bind_assoc]
  simp [List.foldlM_append]

/-- The same indicator but for its figure. -/
def setFigure (n : Int) (x : Indicator) : Indicator := { x with value := x.value.setFigure n }

/-- An indicator and its calculation differ in the figure alone. -/
theorem eq_setFigure_of_refresh (h : x.refresh.toOption = some z) : x = z.setFigure x.value.figure := by
  obtain ⟨hkey, hrefresh⟩ := refresh_eq_some.1 h
  obtain ⟨k, a⟩ := x
  obtain ⟨l, b⟩ := z
  obtain rfl : k = l := hkey
  dsimp only at hrefresh ⊢
  rw [setFigure, ← Aggregate.refresh_eq_setFigure hrefresh, Aggregate.setFigure_setFigure, Aggregate.setFigure_figure]

/-- Going on without calculating leads to the same but for the figure. -/
theorem foldlM_setFigure (n : Int) (ht : t.value.refresh = .ok t.value) (h : rest.foldlM joined? t = some y) :
    y.value.refresh = .ok y.value ∧ ∃ m, rest.foldlM combine? (t.setFigure n) = some (y.setFigure m) := by
  induction rest generalizing t n with
  | nil =>
    cases h
    exact ⟨ht, n, rfl⟩
  | cons x rest ih =>
    rw [List.foldlM_cons] at h
    obtain ⟨z, hz, hrest⟩ := Option.bind_eq_some_iff.1 h
    obtain ⟨hkey, hsame, j, hcombine, hrefresh⟩ := joined?_eq_some.1 hz
    have hother : combine? (t.setFigure n) x = some (z.setFigure n) := by
      refine combine?_eq_some.2 ⟨hkey, hsame, ?_⟩
      show _ = Except.ok (z.value.setFigure n)
      rw [← Aggregate.refresh_eq_setFigure hrefresh, Aggregate.setFigure_setFigure]
      exact Aggregate.combine_setFigure n hcombine
    rw [List.foldlM_cons, hother]
    exact ih n (Aggregate.refresh_refresh hrefresh) hrest

/-- What a fold leads to is calculated. Combining all of the list and calculating once leads to the same,
or, if no figure can be read off, to the same with another figure. -/
theorem folded_spec (h : folded xs = some y) : y.refresh = .ok y ∧ (combineAll xs = some y ∨
    ¬y.value.Readable ∧ ∃ n, combineAll xs = some (y.setFigure n)) := by
  cases xs with
  | nil => cases h
  | cons x rest =>
    obtain ⟨t, ht, hrest⟩ := Option.bind_eq_some_iff.1 h
    obtain ⟨hcalculated, m, hall⟩ :=
      foldlM_setFigure x.value.figure (Aggregate.refresh_refresh (refresh_eq_some.1 ht).2) hrest
    rw [← eq_setFigure_of_refresh ht] at hall
    have honce : combineAll (x :: rest) = (y.setFigure m).refresh.toOption := by
      rw [combineAll, hall, Option.bind_some]
    refine ⟨by rw [Indicator.refresh, hcalculated]; rfl, ?_⟩
    rw [honce]
    obtain hsame | ⟨hunreadable, hkept⟩ := Aggregate.refresh_setFigure m hcalculated
    · exact .inl (refresh_eq_some.2 ⟨rfl, hsame⟩)
    · exact .inr ⟨hunreadable, m, refresh_eq_some.2 ⟨rfl, hkept⟩⟩

/-- None of minus one sample is the last: the fold keeps the figure that it read off before. -/
example :
    let rows : List Indicator := [⟨⟨"svc", ⟨202403151427⟩⟩, .percentile ⟨1, 100, [⟨5, 1⟩], 0⟩⟩,
      ⟨⟨"svc", ⟨202403151427⟩⟩, .percentile ⟨1, 100, [⟨5, -2⟩], 0⟩⟩]
    (folded rows).map (·.value.figure) = some 5 ∧ (combineAll rows).map (·.value.figure) = some 0 := by
  decide +kernel

end Indicator

end MetricCascade
