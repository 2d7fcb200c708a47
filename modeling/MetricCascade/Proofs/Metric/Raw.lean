/-
The raw figures of an aggregate: what combining adds up, without the figure that is read off.
Combining aggregates of one form adds their raw figures, refreshing leaves them alone, and an
aggregate whose figure is current is determined by its form and its raw figures. So the aggregate
of many observations depends neither on their order nor on how they were grouped.
-/
import MetricCascade.Metric.Indicator
import MetricCascade.Proofs.Metric.Bins
import Mathlib.Algebra.Group.Pi.Basic
import Mathlib.Algebra.Group.Prod

namespace MetricCascade

/-- An integer of 64 bits. -/
def IsInt64 (n : Int) : Prop := minInt64 ≤ n ∧ n ≤ maxInt64

/-- An integer of 32 bits. -/
def IsInt32 (n : Int) : Prop := minInt32 ≤ n ∧ n ≤ maxInt32

instance (n : Int) : Decidable (IsInt64 n) := inferInstanceAs (Decidable (minInt64 ≤ n ∧ n ≤ maxInt64))

instance (n : Int) : Decidable (IsInt32 n) := inferInstanceAs (Decidable (minInt32 ≤ n ∧ n ≤ maxInt32))

/-- Two sums and a count for each bucket. -/
abbrev Raw := Int × Int × (Int → Int)

/-- Every sum has 64 bits. -/
def Raw.InRange (r : Raw) : Prop := IsInt64 r.1 ∧ IsInt64 r.2.1 ∧ ∀ k, IsInt64 (r.2.2 k)

/-- A measure, and for a percentile the width of its bins and its rank. -/
abbrev Form := Measure × Option (Int × Nat)

namespace Aggregate

/-- The figures that combining adds up. -/
def raw : Aggregate → Raw
  | count n => (n, 0, 0)
  | average a => (a.summation, a.count, 0)
  | share s => (s.total, s.matched, 0)
  | percentile h => (0, 0, Bin.countIn h.bins)

/-- The width of the bins and the rank of a percentile. -/
def shape : Aggregate → Option (Int × Nat)
  | percentile h => some (h.precision, h.rank)
  | _ => none

/-- What has to agree for two aggregates to combine. -/
def form (a : Aggregate) : Form := (a.measure, a.shape)

end Aggregate

namespace Histogram

/-- A histogram as single samples and their sums make it. -/
structure Proper (h : Histogram) : Prop where
  tidy : Bin.Tidy h.bins
  nonempty : h.bins ≠ []
  bucket : ∀ b ∈ h.bins, 0 ≤ b.bucket ∧ b.bucket ≤ maxInt32
  precision : 1 ≤ h.precision ∧ h.precision ≤ maxInt32
  rank : 1 ≤ h.rank ∧ h.rank ≤ 100

theorem Proper.add {h g : Histogram} (hh : h.Proper) (hg : g.Proper) : (h.add g).Proper where
  tidy := tidy_foldl_addTo hg.tidy.positive hh.tidy
  nonempty := foldl_addTo_ne_nil g.bins hh.nonempty
  bucket b hb := by
    obtain ⟨c, hc, hbc⟩ := mem_foldl_addTo hb
    rw [hbc]
    exact (List.mem_append.1 hc).elim (hh.bucket c) (hg.bucket c)
  precision := hh.precision
  rank := hh.rank

theorem Proper.refresh {h : Histogram} (hh : h.Proper) : h.refresh.Proper where
  tidy := by rw [refresh_bins]; exact hh.tidy
  nonempty := by rw [refresh_bins]; exact hh.nonempty
  bucket := by rw [refresh_bins]; exact hh.bucket
  precision := by rw [refresh_precision]; exact hh.precision
  rank := by rw [refresh_rank]; exact hh.rank

theorem Proper.refresh_congr {h g : Histogram} (hh : h.Proper) (hshape : h.SameShape g)
    (hbins : h.bins = g.bins) : h.refresh = g.refresh :=
  Histogram.refresh_congr hh.tidy hh.nonempty hh.rank.2 hshape hbins

end Histogram

namespace Aggregate

/-- An aggregate of at least one observation, as single observations and their sums make it. -/
def Proper : Aggregate → Prop
  | count _ => True
  | average a => 0 < a.count
  | share s => 0 < s.total
  | percentile h => h.Proper

/-- An aggregate of a form whose figure is up to date. -/
structure Current (f : Form) (a : Aggregate) : Prop where
  proper : a.Proper
  form : a.form = f
  fresh : a.refresh = .ok a

/-! ## Combining -/

/-- Proper aggregates of one form combine: their raw figures add up and the form stays. -/
theorem combine_proper {a b : Aggregate} (ha : a.Proper) (hb : b.Proper) (hf : a.form = b.form) :
    ∃ j, a.combine b = .ok j ∧ j.Proper ∧ j.form = a.form ∧ j.raw = a.raw + b.raw := by
  cases a <;> cases b <;> simp only [form, measure, shape, Prod.mk.injEq, reduceCtorEq, false_and] at hf
  case count.count m n => exact ⟨_, rfl, trivial, rfl, by simp [raw]⟩
  case average.average a b =>
    exact ⟨_, rfl, show 0 < a.count + b.count from Int.add_pos ha hb, rfl, by simp [raw, Average.add]⟩
  case share.share a b =>
    exact ⟨_, rfl, show 0 < a.total + b.total from Int.add_pos ha hb, rfl, by simp [raw, Share.add]⟩
  case percentile.percentile h g =>
    simp only [Option.some.injEq, Prod.mk.injEq, true_and] at hf
    have hsame : h.SameShape g := hf
    refine ⟨.percentile (h.add g), by simp only [combine, if_pos hsame], Histogram.Proper.add ha hb, rfl, ?_⟩
    have hcount : Bin.countIn (h.add g).bins = Bin.countIn h.bins + Bin.countIn g.bins :=
      funext (Histogram.countIn_add h g)
    simp [raw, hcount]

/-- Whatever proper aggregates combine to is proper. -/
theorem Proper.combine {a b c : Aggregate} (ha : a.Proper) (hb : b.Proper) (h : a.combine b = .ok c) : c.Proper := by
  cases a <;> cases b <;> simp only [Aggregate.combine, reduceCtorEq] at h
  case count.count => cases h; trivial
  case average.average => cases h; exact Int.add_pos ha hb
  case share.share => cases h; exact Int.add_pos ha hb
  case percentile.percentile =>
    split at h <;> cases h
    exact Histogram.Proper.add ha hb

/-! ## Refreshing -/

/-- A proper aggregate refreshes without a fault; only its figure changes. -/
theorem refresh_proper {a : Aggregate} (ha : a.Proper) :
    ∃ b, a.refresh = .ok b ∧ b.Current a.form ∧ b.raw = a.raw := by
  cases a with
  | count n => exact ⟨_, rfl, ⟨trivial, rfl, rfl⟩, rfl⟩
  | average a =>
    have hpos : 0 < a.count := ha
    have hok : a.refresh = .ok { a with value := a.summation.tdiv a.count } := by
      unfold Average.refresh
      rw [if_neg (by omega), if_neg (by omega)]
    refine ⟨.average { a with value := a.summation.tdiv a.count }, by simp only [refresh, hok]; rfl,
      ⟨hpos, rfl, ?_⟩, rfl⟩
    simp only [refresh, Average.refresh]
    rw [if_neg (by omega), if_neg (by omega)]
    rfl
  | share s =>
    exact ⟨.share s.refresh, rfl, ⟨ha, rfl, rfl⟩, rfl⟩
  | percentile h =>
    have hh : h.Proper := ha
    refine ⟨.percentile h.refresh, rfl, ⟨hh.refresh, ?_, ?_⟩, ?_⟩
    · simp [form, measure, shape]
    · have hidem : h.refresh.refresh = h.refresh :=
        hh.refresh.refresh_congr ⟨h.refresh_precision, h.refresh_rank⟩ h.refresh_bins
      simp only [refresh, hidem]
    · simp only [raw, Histogram.refresh_bins]

/-- What a proper aggregate refreshes to depends on its form and its raw figures alone. -/
theorem refresh_eq_of_raw {a b : Aggregate} (ha : a.Proper) (hb : b.Proper) (hf : a.form = b.form)
    (hr : a.raw = b.raw) : a.refresh = b.refresh := by
  cases a <;> cases b <;> simp only [form, measure, shape, Prod.mk.injEq, reduceCtorEq, false_and] at hf
  case count.count m n => simp only [raw, Prod.mk.injEq] at hr; rw [hr.1]
  case average.average a b =>
    simp only [raw, Prod.mk.injEq, and_true] at hr
    cases a; cases b
    simp only at hr
    simp only [refresh, Average.refresh, hr.1, hr.2]
  case share.share a b =>
    simp only [raw, Prod.mk.injEq, and_true] at hr
    cases a; cases b
    simp only at hr
    simp only [refresh, Share.refresh, hr.1, hr.2]
  case percentile.percentile h g =>
    simp only [Option.some.injEq, Prod.mk.injEq, true_and] at hf
    simp only [raw, Prod.mk.injEq, true_and] at hr
    have hh : h.Proper := ha
    have hg : g.Proper := hb
    -- equal counts in every bucket are equal bins, because both lists are tidy
    have hbins : h.bins = g.bins := hh.tidy.eq_of_countIn hg.tidy (congrFun hr)
    simp only [refresh, hh.refresh_congr hf hbins]

/-- A current aggregate is determined by its form and its raw figures. -/
theorem Current.eq_of_raw {f : Form} {a b : Aggregate} (ha : a.Current f) (hb : b.Current f)
    (h : a.raw = b.raw) : a = b := by
  have := refresh_eq_of_raw ha.proper hb.proper (ha.form.trans hb.form.symm) h
  rw [ha.fresh, hb.fresh] at this
  exact Except.ok.inj this

/-! ## Combining and refreshing in one step -/

/-- The aggregate with its figure brought up to date. -/
def current (a : Aggregate) : Aggregate :=
  match a.refresh with
  | .ok b => b
  | .error _ => a

/-- Two aggregates combined, with the figure brought up to date. -/
def join (a b : Aggregate) : Aggregate :=
  match a.combine b with
  | .ok j => j.current
  | .error _ => a

theorem refresh_current {a : Aggregate} (ha : a.Proper) : a.refresh = .ok a.current := by
  obtain ⟨b, hb, -, -⟩ := refresh_proper ha
  unfold current
  rw [hb]

theorem current_spec {a : Aggregate} (ha : a.Proper) : a.current.Current a.form ∧ a.current.raw = a.raw := by
  obtain ⟨b, hb, hcur, hraw⟩ := refresh_proper ha
  obtain rfl : b = a.current := Except.ok.inj (hb.symm.trans (refresh_current ha))
  exact ⟨hcur, hraw⟩

/-- Proper aggregates of one form combine and refresh to their join. -/
theorem join_spec {f : Form} {a b : Aggregate} (ha : a.Proper) (hb : b.Proper) (hfa : a.form = f)
    (hfb : b.form = f) :
    ∃ j, a.combine b = .ok j ∧ j.refresh = .ok (a.join b) ∧ (a.join b).Current f ∧
      (a.join b).raw = a.raw + b.raw := by
  obtain ⟨j, hj, hproper, hform, hraw⟩ := combine_proper ha hb (hfa.trans hfb.symm)
  have hjoin : a.join b = j.current := by unfold join; rw [hj]
  obtain ⟨hcur, hcraw⟩ := current_spec hproper
  refine ⟨j, hj, ?_, ?_, ?_⟩
  · rw [hjoin]; exact refresh_current hproper
  · rw [hjoin, ← hfa, ← hform]; exact hcur
  · rw [hjoin, hcraw, hraw]

/-! ## Measures -/

/-- Aggregates of different measures do not combine, and what combines is of the same measure. -/
theorem combine_measure {a b j : Aggregate} (h : a.combine b = .ok j) :
    b.measure = a.measure ∧ j.measure = a.measure := by
  cases a <;> cases b <;> try cases h
  case count.count => exact ⟨rfl, rfl⟩
  case average.average => exact ⟨rfl, rfl⟩
  case share.share => exact ⟨rfl, rfl⟩
  case percentile.percentile =>
    simp only [combine] at h
    split at h <;> cases h
    exact ⟨rfl, rfl⟩

theorem combine_of_ne {a b : Aggregate} (h : b.measure ≠ a.measure) : ∃ e, a.combine b = .error e := by
  cases hj : a.combine b with
  | error e => exact ⟨e, rfl⟩
  | ok j => exact absurd (combine_measure hj).1 h

theorem refresh_measure {a b : Aggregate} (h : a.refresh = .ok b) : b.measure = a.measure := by
  cases a with
  | count n => cases h; rfl
  | average a =>
    simp only [refresh] at h
    cases hr : a.refresh with
    | error fault => rw [hr] at h; cases h
    | ok r => rw [hr] at h; cases h; rfl
  | share s => cases h; rfl
  | percentile g => cases h; rfl

/-- Whatever is joined to it, an aggregate keeps its measure. -/
theorem join_measure (a b : Aggregate) : (a.join b).measure = a.measure := by
  unfold join
  cases hj : a.combine b with
  | error e => rfl
  | ok j =>
    dsimp only [current]
    cases hr : j.refresh with
    | error fault => exact (combine_measure hj).2
    | ok r => exact (refresh_measure hr).trans (combine_measure hj).2

theorem join_of_ne {a b : Aggregate} (h : b.measure ≠ a.measure) : a.join b = a := by
  obtain ⟨e, he⟩ := combine_of_ne h
  unfold join
  rw [he]

/-! ## Raw figures that are not zero -/

/-- Only a count can be made of observations and yet add nothing. -/
theorem raw_ne_zero {a : Aggregate} (ha : a.Proper) (hm : a.measure ≠ .count) : a.raw ≠ 0 := by
  cases a with
  | count n => exact absurd rfl hm
  | average a => intro h; simp only [raw, Prod.mk_eq_zero] at h; exact absurd h.2.1 (ne_of_gt ha)
  | share s => intro h; simp only [raw, Prod.mk_eq_zero] at h; exact absurd h.1 (ne_of_gt ha)
  | percentile h =>
    intro hz
    have hh : h.Proper := ha
    simp only [raw, Prod.mk_eq_zero, true_and] at hz
    obtain ⟨b, rest, hbins⟩ := List.exists_cons_of_ne_nil hh.nonempty
    have hcount := (hbins ▸ hh.tidy).countIn_head
    rw [← hbins, hz] at hcount
    have hpos := hh.tidy.positive b (hbins ▸ List.mem_cons_self ..)
    simp only [Pi.zero_apply] at hcount
    omega

end Aggregate

end MetricCascade
