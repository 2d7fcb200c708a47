/-
Averages lie between the samples, and shares are parts of a whole. Adding sums of samples keeps them between
multiples of the least and of the greatest sample, whatever was added how often; the quotient, although it is
rounded toward zero, then lies between the two samples. What matches stays part of the total, so that a share is
none of more than the whole, is the whole only if everything matches, and fits into 32 bits.
-/
import MetricCascade.Proofs.Metric.Stepwise

namespace MetricCascade

/-! ## Averages -/

namespace Average

/-- A sum of samples, each taken any number of times. -/
structure Drawn (samples : List Int) (a : Average) : Prop where
  sampled : samples ≠ []
  count_pos : 1 ≤ a.count
  bounds : ∀ lo hi, (∀ n ∈ samples, lo ≤ n ∧ n ≤ hi) → lo * a.count ≤ a.summation ∧ a.summation ≤ hi * a.count

/-- The average is one of something, and lies between the least and the greatest of some samples. -/
structure Between (samples : List Int) (a : Average) : Prop where
  count_pos : 1 ≤ a.count
  value : ∃ lo hi, samples.min? = some lo ∧ samples.max? = some hi ∧ lo ≤ a.value ∧ a.value ≤ hi

variable {samples more : List Int} {a b : Average}

theorem drawn_of_mem {n : Int} (hn : n ∈ samples) (value : Int) : Drawn samples ⟨n, 1, value⟩ := by
  refine ⟨List.ne_nil_of_mem hn, le_refl _, fun lo hi hall => ?_⟩
  rw [mul_one, mul_one]
  exact hall n hn

theorem Drawn.mono (h : a.Drawn samples) (hsub : ∀ n ∈ samples, n ∈ more) : a.Drawn more := by
  obtain ⟨n, hn⟩ := List.exists_mem_of_ne_nil _ h.sampled
  refine ⟨List.ne_nil_of_mem (hsub n hn), h.count_pos, fun lo hi hall => ?_⟩
  exact h.bounds lo hi fun m hm => hall m (hsub m hm)

theorem Drawn.add (ha : a.Drawn samples) (hb : b.Drawn samples) : (a.add b).Drawn samples where
  sampled := ha.sampled
  count_pos := by
    have := ha.count_pos
    have := hb.count_pos
    show 1 ≤ a.count + b.count
    omega
  bounds lo hi hall := by
    obtain ⟨ha₁, ha₂⟩ := ha.bounds lo hi hall
    obtain ⟨hb₁, hb₂⟩ := hb.bounds lo hi hall
    show lo * (a.count + b.count) ≤ a.summation + b.summation ∧ a.summation + b.summation ≤ hi * (a.count + b.count)
    rw [mul_add, mul_add]
    exact ⟨add_le_add ha₁ hb₁, add_le_add ha₂ hb₂⟩

/-- A quotient by a positive number lies where the numerator lies between multiples of it. -/
theorem tdiv_bounds {lo hi m n : Int} (hn : 1 ≤ n) (hlo : lo * n ≤ m) (hhi : m ≤ hi * n) : lo ≤ m.tdiv n ∧ m.tdiv n ≤ hi := by
  have hpos : 0 < n := hn
  constructor
  · calc lo = (lo * n).tdiv n := (Int.mul_tdiv_cancel lo hpos.ne').symm
      _ ≤ m.tdiv n := Int.tdiv_le_tdiv hpos hlo
  · calc m.tdiv n ≤ (hi * n).tdiv n := Int.tdiv_le_tdiv hpos hhi
      _ = hi := Int.mul_tdiv_cancel hi hpos.ne'

/-- The average of samples can be computed, and lies between them. -/
theorem Drawn.refresh (h : a.Drawn samples) : ∃ b, a.refresh = .ok b ∧ b.Drawn samples ∧ b.Between samples := by
  obtain ⟨lo, hlo⟩ := Option.isSome_iff_exists.1 (List.isSome_min?_iff.2 h.sampled)
  obtain ⟨hi, hhi⟩ := Option.isSome_iff_exists.1 (List.isSome_max?_iff.2 h.sampled)
  have hcount := h.count_pos
  obtain ⟨hleast, hgreatest⟩ := h.bounds lo hi fun n hn =>
    ⟨(List.min?_eq_some_iff.1 hlo).2 n hn, (List.max?_eq_some_iff.1 hhi).2 n hn⟩
  refine ⟨{ a with value := a.summation.tdiv a.count }, ?_, ⟨h.sampled, hcount, h.bounds⟩, hcount, lo, hi, hlo, hhi, ?_⟩
  · unfold Average.refresh
    rw [if_neg (by omega), if_neg (by omega)]
  · exact tdiv_bounds hcount hleast hgreatest

end Average

/-! ## Shares -/

namespace Share

/-- A number of observations, and of those that match. -/
structure Drawn (s : Share) : Prop where
  total_pos : 1 ≤ s.total
  matched_nonneg : 0 ≤ s.matched
  matched_le : s.matched ≤ s.total

/-- The share is that of the part, unchanged by being kept to 32 bits. -/
structure Part (s : Share) : Prop extends Drawn s where
  quotient : s.percentage = (s.matched * scale).tdiv s.total
  nonneg : 0 ≤ s.percentage
  le_scale : s.percentage ≤ scale
  eq_scale_iff : s.percentage = scale ↔ s.matched = s.total

variable {s t : Share}

theorem Drawn.add (hs : s.Drawn) (ht : t.Drawn) : (s.add t).Drawn where
  total_pos := by
    have := hs.total_pos
    have := ht.total_pos
    show 1 ≤ s.total + t.total
    omega
  matched_nonneg := Int.add_nonneg hs.matched_nonneg ht.matched_nonneg
  matched_le := Int.add_le_add hs.matched_le ht.matched_le

/-- The quotient of a part is none of more than the scale, and the scale only for the whole. -/
theorem Drawn.quotient (h : s.Drawn) : 0 ≤ (s.matched * scale).tdiv s.total ∧ (s.matched * scale).tdiv s.total ≤ scale ∧
    ((s.matched * scale).tdiv s.total = scale ↔ s.matched = s.total) := by
  have htotal := h.total_pos
  have hnonneg : 0 ≤ s.matched * scale := Int.mul_nonneg h.matched_nonneg (by decide)
  have hle : s.matched * scale ≤ scale * s.total := by
    rw [Int.mul_comm scale]
    exact Int.mul_le_mul_of_nonneg_right h.matched_le (by decide)
  have hzero : 0 * s.total ≤ s.matched * scale := by omega
  obtain ⟨hlow, hhigh⟩ := Average.tdiv_bounds htotal hzero hle
  refine ⟨hlow, hhigh, ?_⟩
  constructor
  · intro heq
    have hquotient : s.matched * scale / s.total = scale := (Int.tdiv_eq_ediv_of_nonneg hnonneg).symm.trans heq
    have hfull : scale * s.total ≤ s.matched * scale := by
      calc scale * s.total = s.matched * scale / s.total * s.total := congrArg (· * s.total) hquotient.symm
        _ ≤ s.matched * scale := Int.ediv_mul_le _ (by omega)
    have := h.matched_le
    simp only [scale] at hfull
    omega
  · intro heq
    rw [heq, Int.mul_comm]
    exact Int.mul_tdiv_cancel scale (by omega)

/-- The share of a part can be computed. -/
theorem Drawn.refresh (h : s.Drawn) : s.refresh.Part := by
  obtain ⟨hlow, hhigh, hwhole⟩ := h.quotient
  have htotal := h.total_pos
  have hpercentage : s.refresh.percentage = (s.matched * scale).tdiv s.total := by
    simp only [Share.refresh]
    rw [if_neg (by omega)]
    apply Int.bmod_eq_of_le_mul_two
    · simp only [scale] at hlow hhigh ⊢
      omega
    · simp only [scale] at hlow hhigh ⊢
      omega
  exact ⟨⟨h.total_pos, h.matched_nonneg, h.matched_le⟩, hpercentage, hpercentage ▸ hlow, hpercentage ▸ hhigh,
    hpercentage ▸ hwhole⟩

end Share

/-! ## Aggregates -/

namespace Aggregate

/-- What the figure is a quotient by. -/
def divisor? : Aggregate → Option Int
  | average a => some a.count
  | share s => some s.total
  | _ => none

/-- Sums of samples, or of observations that match or not. -/
def Drawn (samples : List Int) : Aggregate → Prop
  | average a => a.Drawn samples
  | share s => s.Drawn
  | _ => False

/-- An average between samples, or a share that is part of a whole. -/
def Bounded (samples : List Int) : Aggregate → Prop
  | average a => a.Between samples
  | share s => s.Part
  | _ => False

variable {samples more : List Int} {a b c : Aggregate}

theorem Drawn.mono (h : a.Drawn samples) (hsub : ∀ n ∈ samples, n ∈ more) : a.Drawn more := by
  cases a with
  | count n => exact h
  | average a => exact Average.Drawn.mono h hsub
  | share s => exact h
  | percentile g => exact h

theorem Drawn.combine (ha : a.Drawn samples) (hb : b.Drawn samples) (h : a.combine b = .ok c) : c.Drawn samples := by
  cases a <;> cases b <;> simp only [Aggregate.combine, reduceCtorEq] at h
  case average.average a b =>
    cases h
    exact Average.Drawn.add ha hb
  case share.share s t =>
    cases h
    exact Share.Drawn.add ha hb
  all_goals exact ha.elim

/-- The quotient is one by a positive number. -/
theorem Drawn.divisor (h : a.Drawn samples) : ∃ n, a.divisor? = some n ∧ 1 ≤ n := by
  cases a with
  | count n => exact h.elim
  | average a => exact ⟨a.count, rfl, Average.Drawn.count_pos h⟩
  | share s => exact ⟨s.total, rfl, Share.Drawn.total_pos h⟩
  | percentile g => exact h.elim

/-- The figure can be computed, and is bounded then. -/
theorem Drawn.refresh (h : a.Drawn samples) : ∃ b, a.refresh = .ok b ∧ b.Drawn samples ∧ b.Bounded samples := by
  cases a with
  | count n => exact h.elim
  | average a =>
    obtain ⟨b, hb, hdrawn, hbetween⟩ := Average.Drawn.refresh h
    refine ⟨average b, ?_, hdrawn, hbetween⟩
    show a.refresh.map average = _
    rw [hb]
    rfl
  | share s =>
    have hpart := Share.Drawn.refresh h
    exact ⟨share s.refresh, rfl, hpart.toDrawn, hpart⟩
  | percentile g => exact h.elim

/-- A figure that is up to date is bounded. -/
theorem Drawn.bounded (h : a.Drawn samples) (hfresh : a.refresh = .ok a) : a.Bounded samples := by
  obtain ⟨b, hb, -, hbounded⟩ := h.refresh
  obtain rfl : b = a := Except.ok.inj (hb.symm.trans hfresh)
  exact hbounded

end Aggregate

end MetricCascade
