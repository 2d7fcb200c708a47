/-
What a gauge reads of many spans: their number, how many succeeded, the sum of their response times,
the histogram of these. Combining the observations of the spans one by one comes to just that.
-/
import MetricCascade.Proofs.Metric.Gather
import MetricCascade.Span.Scope
import Mathlib.Data.Finset.Sort

namespace MetricCascade

open Indicator

theorem Span.latency_nonneg (s : Span) : 0 ≤ s.latency := le_max_right _ _

namespace Gauge

/-! ## Histograms of response times -/

/-- The bin that the response time of a span falls into. -/
def bin (s : Span) : Int := min (s.latency / precision) maxInt32

/-- The bins that some spans fall into, in increasing order, each with the number of spans in it. -/
def bins (ss : List Span) : List Bin :=
  ((ss.map bin).toFinset.sort).map fun i => ⟨i, (ss.map bin).count i⟩

theorem mem_bins {ss : List Span} {b : Bin} (h : b ∈ bins ss) :
    b.bucket ∈ ss.map bin ∧ b.count = (ss.map bin).count b.bucket := by
  obtain ⟨i, hi, rfl⟩ := List.mem_map.1 h
  exact ⟨List.mem_toFinset.1 ((Finset.mem_sort _).1 hi), rfl⟩

theorem bins_tidy (ss : List Span) : Bin.Tidy (bins ss) where
  ordered := List.pairwise_map.2 (Finset.sortedLT_sort _).pairwise
  positive b hb := by
    obtain ⟨hmem, hcount⟩ := mem_bins hb
    rw [hcount]
    exact_mod_cast List.count_pos_iff.2 hmem

theorem countIn_bins (ss : List Span) (i : Int) : Bin.countIn (bins ss) i = (ss.map bin).count i := by
  by_cases hi : i ∈ ss.map bin
  · have hmem : (⟨i, (ss.map bin).count i⟩ : Bin) ∈ bins ss :=
      List.mem_map.2 ⟨i, (Finset.mem_sort _).2 (List.mem_toFinset.2 hi), rfl⟩
    exact (bins_tidy ss).countIn_of_mem hmem
  · rw [List.count_eq_zero.2 hi]
    apply Bin.countIn_eq_zero
    rintro b hb rfl
    exact hi (mem_bins hb).1

theorem bin_range (s : Span) : 0 ≤ bin s ∧ bin s ≤ maxInt32 := by
  have hmax : (0 : Int) ≤ maxInt32 := by decide
  have hprecision : (0 : Int) ≤ precision := by decide
  exact ⟨le_min (Int.ediv_nonneg s.latency_nonneg hprecision) hmax, min_le_right _ _⟩

/-! ## Aggregates -/

/-- How many of some spans did not fail. -/
def passed (ss : List Span) : Int := (ss.countP fun s => !s.failed : Nat)

/-- The response times of some spans taken together. -/
def totalTime (ss : List Span) : Int := (ss.map Span.latency).sum

/-- What a gauge reads of some spans. -/
def aggregate (g : Gauge) (ss : List Span) : Aggregate :=
  match g with
  | calls => .count ss.length
  | successes => .share ⟨ss.length, passed ss, passed ss * 10000 / ss.length⟩
  | responseTime => .average ⟨totalTime ss, ss.length, totalTime ss / ss.length⟩
  | responseTimeAt rank => .percentile (Histogram.refresh ⟨precision, max 1 (min rank 100), bins ss, 0⟩)

/-- The form of the aggregates of a gauge. -/
def form (g : Gauge) : Form :=
  match g with
  | responseTimeAt rank => (.percentile, some (precision, max 1 (min rank 100)))
  | g => (g.measure, none)

theorem form_measure (g : Gauge) : g.form.1 = g.measure := by cases g <;> rfl

theorem passed_range (ss : List Span) : 0 ≤ passed ss ∧ passed ss ≤ ss.length :=
  ⟨Int.natCast_nonneg _, Int.ofNat_le.2 List.countP_le_length⟩

theorem totalTime_nonneg (ss : List Span) : 0 ≤ totalTime ss := by
  apply List.sum_nonneg
  intro n hn
  obtain ⟨s, -, rfl⟩ := List.mem_map.1 hn
  exact s.latency_nonneg

theorem histogram_proper {ss : List Span} (hne : ss ≠ []) (rank : Nat) :
    Histogram.Proper ⟨precision, max 1 (min rank 100), bins ss, 0⟩ where
  tidy := bins_tidy ss
  nonempty hnil := by
    obtain ⟨s, hs⟩ := List.exists_mem_of_ne_nil _ hne
    have hcount := countIn_bins ss (bin s)
    rw [show bins ss = [] from hnil, Bin.countIn_nil] at hcount
    have hpos := List.count_pos_iff.2 (List.mem_map_of_mem (f := bin) hs)
    omega
  bucket b hb := by
    obtain ⟨s, -, hs⟩ := List.mem_map.1 (mem_bins hb).1
    exact hs ▸ bin_range s
  precision := (by decide : 1 ≤ precision ∧ precision ≤ maxInt32)
  rank := by dsimp only; omega

/-- What a gauge reads of at least one span is up to date. -/
theorem aggregate_current (g : Gauge) {ss : List Span} (hne : ss ≠ []) : (g.aggregate ss).Current g.form := by
  have hlength : 0 < (ss.length : Int) := by exact_mod_cast List.length_pos_iff.2 hne
  cases g with
  | calls => exact ⟨trivial, rfl, rfl⟩
  | successes =>
    obtain ⟨hlow, hhigh⟩ := passed_range ss
    refine ⟨hlength, rfl, ?_⟩
    -- the quotient is at most ten thousand, so 32 bits hold it
    have hquot : 0 ≤ passed ss * 10000 / ss.length := Int.ediv_nonneg (by omega) hlength.le
    have hbound : passed ss * 10000 / ss.length ≤ 10000 := by
      refine Int.ediv_le_of_le_mul hlength ?_
      omega
    have hbmod : ((passed ss * 10000).tdiv ss.length).bmod 4294967296 = passed ss * 10000 / ss.length := by
      rw [Int.tdiv_eq_ediv_of_nonneg (by omega)]
      exact Int.bmod_eq_of_le (by omega) (by omega)
    simp only [aggregate, Aggregate.refresh, Share.refresh, Share.scale, hbmod, if_neg hlength.ne']
  | responseTime =>
    refine ⟨hlength, rfl, ?_⟩
    have htdiv : (totalTime ss).tdiv ss.length = totalTime ss / ss.length :=
      Int.tdiv_eq_ediv_of_nonneg (totalTime_nonneg ss)
    simp only [aggregate, Aggregate.refresh, Average.refresh, htdiv]
    rw [if_neg hlength.ne', if_neg (by omega)]
    rfl
  | responseTimeAt rank =>
    obtain ⟨a, ha, hcur, -⟩ := Aggregate.refresh_proper (a := .percentile _) (histogram_proper hne rank)
    obtain rfl := Except.ok.inj ha
    exact hcur

/-! ## Observations -/

theorem observe_key (g : Gauge) (k : Key) (s : Span) : (g.observe k.entity k.bucket s).key = k := by
  cases g <;> rfl

theorem observe_proper (g : Gauge) (entity : String) (bucket : Bucket) (s : Span) :
    (g.observe entity bucket s).value.Proper := by
  cases g with
  | calls => trivial
  | successes => exact Int.one_pos
  | responseTime => exact Int.one_pos
  | responseTimeAt rank => exact ofSample_proper _ _ (by decide)

theorem observe_form (g : Gauge) (entity : String) (bucket : Bucket) (s : Span) :
    (g.observe entity bucket s).value.form = g.form := by
  cases g <;> rfl

/-- The samples of a response time fall into its bin. -/
theorem ofSample_bins (s : Span) (rank : Nat) : (Histogram.ofSample s.latency precision rank).bins = [⟨bin s, 1⟩] := by
  have hprecision : max precision 1 = precision := by decide
  simp only [Histogram.ofSample, hprecision, max_eq_left s.latency_nonneg]
  rfl

/-- The observations of some spans add up to what the gauge reads of all of them. -/
theorem rawSum_observe (g : Gauge) (entity : String) (bucket : Bucket) (ss : List Span) :
    rawSum (ss.map (g.observe entity bucket)) = (g.aggregate ss).raw := by
  cases g with
  | calls =>
    induction ss with
    | nil => rfl
    | cons s ss ih =>
      rw [List.map_cons, rawSum_cons, ih]
      simp [aggregate, Aggregate.raw, observe, count, add_comm]
  | successes =>
    induction ss with
    | nil => rfl
    | cons s ss ih =>
      rw [List.map_cons, rawSum_cons, ih]
      cases hs : s.failed <;> simp [aggregate, Aggregate.raw, observe, share, passed, hs, add_comm]
  | responseTime =>
    induction ss with
    | nil => rfl
    | cons s ss ih =>
      rw [List.map_cons, rawSum_cons, ih]
      simp [aggregate, Aggregate.raw, observe, average, totalTime, add_comm]
  | responseTimeAt rank =>
    -- both sides count, bin by bin, the spans whose response time falls into it
    have hraw : rawSum (ss.map ((responseTimeAt rank).observe entity bucket)) =
        (0, 0, fun i => ((ss.map bin).count i : Int)) := by
      induction ss with
      | nil => rfl
      | cons s ss ih =>
        rw [List.map_cons, rawSum_cons, ih]
        refine Prod.ext rfl (Prod.ext rfl (funext ?_))
        intro i
        show Bin.countIn (Histogram.ofSample s.latency precision rank).bins i + ((ss.map bin).count i : Int) =
          ((bin s :: ss.map bin).count i : Nat)
        rw [ofSample_bins, List.count_cons, Bin.countIn_cons, Bin.countIn_nil]
        by_cases hi : bin s = i <;> simp [hi, add_comm]
    rw [hraw]
    refine Prod.ext rfl (Prod.ext rfl (funext ?_))
    intro i
    show _ = Bin.countIn (Histogram.refresh _).bins i
    rw [Histogram.refresh_bins, countIn_bins]

/-- Combined, the observations of at least one span are what the gauge reads of all of them. -/
theorem combineAll_observe (g : Gauge) (k : Key) {ss : List Span} (hne : ss ≠ []) :
    combineAll (ss.map (g.observe k.entity k.bucket)) = some ⟨k, g.aggregate ss⟩ := by
  refine combineAll_eq (fun hnil => hne (List.map_eq_nil_iff.1 hnil)) (fun x hx => ?_) (g.aggregate_current hne)
    (g.rawSum_observe k.entity k.bucket ss).symm
  obtain ⟨s, -, rfl⟩ := List.mem_map.1 hx
  exact ⟨g.observe_key k s, g.observe_proper _ _ s, g.observe_form _ _ s⟩

/-- No figure exceeds both the number of spans and the sum of their response times. -/
theorem inRange_observe (g : Gauge) (entity : String) (bucket : Bucket) {ss : List Span}
    (hlength : (ss.length : Int) ≤ maxInt64) (htime : totalTime ss ≤ maxInt64) :
    (rawSum (ss.map (g.observe entity bucket))).InRange := by
  have hmin : minInt64 ≤ 0 := by decide
  have hmax : 0 ≤ maxInt64 := by decide
  have hzero : IsInt64 0 := ⟨hmin, hmax⟩
  have hcount : IsInt64 ss.length := ⟨by omega, hlength⟩
  have hpassed := passed_range ss
  have htotal := totalTime_nonneg ss
  rw [rawSum_observe]
  cases g with
  | calls => exact ⟨hcount, hzero, fun _ => hzero⟩
  | successes => exact ⟨hcount, ⟨hmin.trans hpassed.1, hpassed.2.trans hlength⟩, fun _ => hzero⟩
  | responseTime => exact ⟨⟨hmin.trans htotal, htime⟩, hcount, fun _ => hzero⟩
  | responseTimeAt rank =>
    refine ⟨hzero, hzero, ?_⟩
    intro i
    show IsInt64 (Bin.countIn (Histogram.refresh _).bins i)
    rw [Histogram.refresh_bins, countIn_bins]
    have hle : (ss.map bin).count i ≤ ss.length := by
      simpa using List.count_le_length (a := i) (l := ss.map bin)
    exact ⟨by omega, by omega⟩

end Gauge

end MetricCascade
