/-
Percentiles and order statistics. A tidy list of bins counts the samples of every range of buckets, so
the walk to the threshold ends in the bucket of the sample that stands at that place when all samples are
put in order: the percentile is the nearest-rank sample, rounded down to the width of a bin.
-/
import MetricCascade.Proofs.Metric.Grouping

namespace MetricCascade

namespace Bin

/-! ## Samples in a range of buckets -/

/-- The number of samples in the bins whose buckets satisfy `p`. -/
def weight (p : Int → Bool) : List Bin → Int
  | [] => 0
  | b :: rest => (if p b.bucket then b.count else 0) + weight p rest

@[simp] theorem weight_nil (p : Int → Bool) : weight p [] = 0 := rfl

@[simp] theorem weight_cons (p : Int → Bool) (b : Bin) (rest : List Bin) :
    weight p (b :: rest) = (if p b.bucket then b.count else 0) + weight p rest := rfl

@[simp] theorem weight_append (p : Int → Bool) (l m : List Bin) : weight p (l ++ m) = weight p l + weight p m := by
  induction l with
  | nil => simp
  | cons b l ih => rw [List.cons_append, weight_cons, weight_cons, ih, add_assoc]

theorem weight_all (l : List Bin) : weight (fun _ => true) l = l.foldr (fun b n => b.count + n) 0 := by
  induction l with
  | nil => rfl
  | cons b l ih => rw [weight_cons, ih, if_pos rfl, List.foldr_cons]

theorem weight_congr {p q : Int → Bool} {l : List Bin} (h : ∀ b ∈ l, p b.bucket = q b.bucket) :
    weight p l = weight q l := by
  induction l with
  | nil => rfl
  | cons b l ih =>
    rw [weight_cons, weight_cons, h b (List.mem_cons_self ..), ih fun c hc => h c (List.mem_cons_of_mem _ hc)]

theorem weight_eq_zero {p : Int → Bool} {l : List Bin} (h : ∀ b ∈ l, p b.bucket = false) : weight p l = 0 := by
  induction l with
  | nil => rfl
  | cons b l ih =>
    rw [weight_cons, h b (List.mem_cons_self ..), ih fun c hc => h c (List.mem_cons_of_mem _ hc)]
    rfl

/-- Bins that count slots bucket by bucket count them over every range of buckets. -/
theorem Tidy.weight_eq_countP {l : List Bin} (hl : Tidy l) {slots : List Int}
    (hslots : ∀ i, countIn l i = slots.count i) (p : Int → Bool) : weight p l = slots.countP p := by
  induction l generalizing slots with
  | nil =>
    have hnil : slots = [] := by
      rw [List.eq_nil_iff_forall_not_mem]
      intro i hi
      have hpos := List.count_pos_iff.2 hi
      have hzero := hslots i
      rw [countIn_nil] at hzero
      omega
    rw [hnil]
    rfl
  | cons b l ih =>
    have hhead : (slots.count b.bucket : Int) = b.count := by rw [← hslots, hl.countIn_head]
    -- the slots of the first bin, and the rest
    have hrest : weight p l = (slots.filter fun i => !decide (i = b.bucket)).countP p := by
      apply ih hl.tail
      intro i
      by_cases hi : i = b.bucket
      · subst hi
        have hself := hslots b.bucket
        rw [countIn_cons, if_pos rfl] at hself
        rw [List.count_eq_zero.2 fun h => by simp at h]
        omega
      · have hother := hslots i
        rw [countIn_cons, if_neg (Ne.symm hi), zero_add] at hother
        rw [hother, List.count_filter (by simpa using hi)]
    have hfirst : (slots.filter fun i => decide (i = b.bucket)).countP p =
        if p b.bucket then slots.count b.bucket else 0 := by
      rw [List.filter_eq, List.countP_replicate]
    rw [weight_cons, hrest, List.countP_eq_countP_filter_add slots p (fun i => decide (i = b.bucket)), hfirst]
    push_cast
    rw [hhead]

/-- Below the bucket of a bin of a tidy list are just the bins before it. -/
theorem Tidy.weight_around {before after : List Bin} {b : Bin} (hl : Tidy (before ++ b :: after)) :
    weight (· < b.bucket) (before ++ b :: after) = weight (fun _ => true) before ∧
      weight (· ≤ b.bucket) (before ++ b :: after) = weight (fun _ => true) before + b.count := by
  obtain ⟨-, hsuffix, hbefore⟩ := List.pairwise_append.1 hl.ordered
  have hbelow : ∀ c ∈ before, c.bucket < b.bucket := fun c hc => hbefore c hc b (List.mem_cons_self ..)
  have habove : ∀ c ∈ after, b.bucket < c.bucket := fun c hc => List.rel_of_pairwise_cons hsuffix hc
  constructor
  · have hall : weight (· < b.bucket) before = weight (fun _ => true) before :=
      weight_congr fun c hc => by simpa using hbelow c hc
    have hnone : weight (· < b.bucket) after = 0 := weight_eq_zero fun c hc => by simpa using (habove c hc).le
    rw [weight_append, weight_cons, hall, hnone]
    simp
  · have hall : weight (· ≤ b.bucket) before = weight (fun _ => true) before :=
      weight_congr fun c hc => by simpa using (hbelow c hc).le
    have hnone : weight (· ≤ b.bucket) after = 0 := weight_eq_zero fun c hc => by simpa using habove c hc
    rw [weight_append, weight_cons, hall, hnone]
    simp

end Bin

namespace Histogram

open Bin

/-! ## The walk to the threshold -/

/-- The walk ends at the first bin with which the running count reaches the threshold. -/
theorem firstReaching_split {threshold running : Int} {l : List Bin} {b : Bin}
    (h : firstReaching threshold running l = some b) :
    ∃ before after, l = before ++ b :: after ∧ threshold ≤ running + weight (fun _ => true) before + b.count ∧
      (before = [] ∨ running + weight (fun _ => true) before < threshold) := by
  induction l generalizing running with
  | nil => cases h
  | cons c l ih =>
    unfold firstReaching at h
    split at h
    · rename_i hreached
      cases h
      exact ⟨[], l, rfl, by simpa using hreached, .inl rfl⟩
    · rename_i hshort
      obtain ⟨before, after, rfl, hreached, hbelow⟩ := ih h
      refine ⟨c :: before, after, rfl, ?_, .inr ?_⟩
      · simp only [weight_cons, if_true]
        omega
      · simp only [weight_cons, if_true]
        rcases hbelow with rfl | hbelow
        · simp only [weight_nil]
          omega
        · omega

/-- The slot at which the walk ends: fewer slots than the threshold lie below it, and so many not above. -/
theorem firstReaching_countP {l : List Bin} (hl : Tidy l) {slots : List Int}
    (hslots : ∀ i, countIn l i = slots.count i) {threshold : Nat} {b : Bin}
    (h : firstReaching threshold 0 l = some b) :
    slots.countP (· < b.bucket) < max 1 threshold ∧ max 1 threshold ≤ slots.countP (· ≤ b.bucket) := by
  obtain ⟨before, after, rfl, hreached, hbelow⟩ := firstReaching_split h
  obtain ⟨hlt, hle⟩ := hl.weight_around
  rw [hl.weight_eq_countP hslots] at hlt hle
  have hpos := hl.positive b (by simp)
  have hnonneg : (0 : Int) ≤ slots.countP (· < b.bucket) := Int.natCast_nonneg _
  constructor
  · rcases hbelow with rfl | hbelow
    · rw [weight_nil] at hlt
      omega
    · omega
  · omega

/-! ## Samples in order -/

/-- In increasing order, at most `i` samples lie below the one at place `i`, and more than `i` not above it. -/
theorem countP_around_getElem {l : List Int} (hl : l.Pairwise (· ≤ ·)) {i : Nat} (hi : i < l.length) :
    l.countP (· < l[i]) ≤ i ∧ i < l.countP (· ≤ l[i]) := by
  have htake : ∀ s ∈ l.take (i + 1), s ≤ l[i] := by
    intro s hs
    obtain ⟨j, hj, rfl⟩ := List.mem_take_iff_getElem.1 hs
    rcases Nat.lt_or_eq_of_le (Nat.le_of_lt_succ (lt_of_lt_of_le hj (min_le_left _ _))) with hlt | rfl
    · exact List.pairwise_iff_getElem.1 hl j i _ hi hlt
    · exact le_rfl
  have hdrop : ∀ s ∈ l.drop i, ¬ s < l[i] := by
    intro s hs
    obtain ⟨j, hj, rfl⟩ := List.mem_drop_iff_getElem.1 hs
    rcases Nat.eq_zero_or_pos j with rfl | hpos
    · simp
    · exact (List.pairwise_iff_getElem.1 hl i (i + j) hi _ (by omega)).not_gt
  constructor
  · calc l.countP (· < l[i])
        = (l.take i).countP (· < l[i]) + (l.drop i).countP (· < l[i]) := by
          rw [← List.countP_append, List.take_append_drop]
      _ = (l.take i).countP (· < l[i]) := by
          rw [List.countP_eq_zero (l := l.drop i) |>.2 fun s hs => by simpa using hdrop s hs, Nat.add_zero]
      _ ≤ (l.take i).length := List.countP_le_length
      _ ≤ i := List.length_take_le i l
  · calc i < (l.take (i + 1)).length := by rw [List.length_take]; omega
      _ = (l.take (i + 1)).countP (· ≤ l[i]) := (List.countP_eq_length.2 fun s hs => by simpa using htake s hs).symm
      _ ≤ l.countP (· ≤ l[i]) := (List.take_sublist _ _).countP_le

/-! ## The bins of samples -/

/-- The bucket of a sample. -/
def slot (precision sample : Int) : Int := min (max sample 0 / max precision 1) maxInt32

theorem slot_mono (precision : Int) {s t : Int} (h : s ≤ t) : slot precision s ≤ slot precision t := by
  have hwidth : 0 < max precision 1 := by omega
  exact min_le_min_right _ (Int.ediv_le_ediv hwidth (max_le_max_right 0 h))

/-- The place of the percentile among `n` samples in increasing order, the first one being at place 1:
so many as the rank says of a hundred, rounded to the nearest. -/
def place (n rank : Nat) : Nat := max 1 ((n * max 1 (min rank 100) + 50) / 100)

theorem place_le {n : Nat} (rank : Nat) (hn : 0 < n) : place n rank ≤ n := by
  have hrank : max 1 (min rank 100) ≤ 100 := by omega
  have hmul : n * max 1 (min rank 100) ≤ n * 100 := Nat.mul_le_mul_left n hrank
  unfold place
  omega

theorem place_mono (n : Nat) {rank rank' : Nat} (h : rank ≤ rank') : place n rank ≤ place n rank' := by
  have hrank : max 1 (min rank 100) ≤ max 1 (min rank' 100) := by omega
  have hmul := Nat.mul_le_mul_left n hrank
  unfold place
  omega

/-- A sample at a place and the bucket at the same place belong together, because a larger sample never
falls into a lower bucket. -/
theorem slot_eq {samples : List Int} {precision s bucket : Int} {k : Nat}
    (hbelow : samples.countP (· < s) < k) (hreached : k ≤ samples.countP (· ≤ s))
    (hlow : (samples.map (slot precision)).countP (· < bucket) < k)
    (hhigh : k ≤ (samples.map (slot precision)).countP (· ≤ bucket)) : slot precision s = bucket := by
  rw [List.countP_map] at hlow hhigh
  rcases lt_trichotomy (slot precision s) bucket with hlt | heq | hgt
  · have hle : samples.countP (· ≤ s) ≤ samples.countP ((· < bucket) ∘ slot precision) := by
      refine List.countP_mono_left fun t _ ht => ?_
      have := slot_mono precision (of_decide_eq_true ht)
      exact decide_eq_true (lt_of_le_of_lt this hlt)
    omega
  · exact heq
  · have hle : samples.countP ((· ≤ bucket) ∘ slot precision) ≤ samples.countP (· < s) := by
      refine List.countP_mono_left fun t _ ht => decide_eq_true ?_
      by_contra hst
      have hslot : slot precision t ≤ bucket := of_decide_eq_true ht
      have := slot_mono precision (not_lt.1 hst)
      omega
    omega

/-- The sample at the place of the percentile, rounded down to the width of a bin. -/
def nearestRank (samples : List Int) (precision : Int) (rank : Nat) : Option Int :=
  (samples.insertionSort (· ≤ ·))[place samples.length rank - 1]?.map fun s =>
    min maxInt32 (slot precision s * max precision 1)

/-- A higher rank never reads a smaller sample. -/
theorem nearestRank_mono {samples : List Int} {precision m n : Int} {rank rank' : Nat} (h : rank ≤ rank')
    (hm : nearestRank samples precision rank = some m) (hn : nearestRank samples precision rank' = some n) : m ≤ n := by
  obtain ⟨s, hs, rfl⟩ := Option.map_eq_some_iff.1 hm
  obtain ⟨t, ht, rfl⟩ := Option.map_eq_some_iff.1 hn
  obtain ⟨hi, rfl⟩ := List.getElem?_eq_some_iff.1 hs
  obtain ⟨hj, rfl⟩ := List.getElem?_eq_some_iff.1 ht
  have hplace := place_mono samples.length h
  have hle : (samples.insertionSort (· ≤ ·))[place samples.length rank - 1] ≤
      (samples.insertionSort (· ≤ ·))[place samples.length rank' - 1] :=
    samples.sortedLE_insertionSort.getElem_le_getElem_of_le (by omega)
  have hwidth : 0 ≤ max precision 1 := by omega
  exact min_le_min_left _ (mul_le_mul_of_nonneg_right (slot_mono precision hle) hwidth)

/-- The percentile of a histogram that counts the slots of samples is the one of the samples at its place. -/
theorem nearestRank_refresh {h : Histogram} {samples : List Int} {precision : Int} {rank : Nat}
    (hne : samples ≠ []) (hh : h.Proper) (hprecision : h.precision = max precision 1)
    (hrank : h.rank = max 1 (min rank 100))
    (hslots : ∀ i, countIn h.bins i = (samples.map (slot precision)).count i) :
    nearestRank samples precision rank = some h.refresh.value := by
  obtain ⟨b, hb⟩ := firstReaching_tidy hh.tidy hh.nonempty hh.rank.2
  have htotal : h.total = samples.length := by
    have hcount := hh.tidy.weight_eq_countP hslots fun _ => true
    rw [weight_all, List.countP_true, List.length_map] at hcount
    exact hcount
  have hthreshold : h.threshold = ((samples.length * h.rank + 50) / 100 : Nat) := by
    unfold threshold
    rw [htotal, Int.tdiv_eq_ediv_of_nonneg (by positivity)]
    push_cast
    rfl
  have hplace : max 1 ((samples.length * h.rank + 50) / 100) = place samples.length rank := by
    unfold place
    rw [hrank]
  have hpositive : 0 < samples.length := List.length_pos_iff.2 hne
  have hbound := place_le rank hpositive
  have hplace' : 1 ≤ place samples.length rank := le_max_left _ _
  have hwalk := hb
  rw [hthreshold] at hwalk
  obtain ⟨hlow, hhigh⟩ := firstReaching_countP hh.tidy hslots hwalk
  rw [hplace] at hlow hhigh
  -- the sample at that place, and how many samples lie around it
  have hi : place samples.length rank - 1 < (samples.insertionSort (· ≤ ·)).length := by
    rw [List.length_insertionSort]
    omega
  obtain ⟨hbelow, hreached⟩ := countP_around_getElem (List.pairwise_insertionSort (· ≤ ·) samples) hi
  rw [(List.perm_insertionSort (· ≤ ·) samples).countP_eq] at hbelow hreached
  have hslot : slot precision (samples.insertionSort (· ≤ ·))[place samples.length rank - 1] = b.bucket :=
    slot_eq (k := place samples.length rank) (by omega) (by omega) hlow hhigh
  have hmem : b ∈ h.bins := by
    obtain ⟨before, after, hsplit, -⟩ := firstReaching_split hb
    rw [hsplit]
    exact List.mem_append_right _ (List.mem_cons_self ..)
  have hnonneg : 0 ≤ b.bucket * h.precision :=
    mul_nonneg (hh.bucket b hmem).1 (le_trans (by decide) hh.precision.1)
  have hclamp : clampInt32 (b.bucket * h.precision) = min maxInt32 (b.bucket * h.precision) := by
    unfold clampInt32 minInt32 maxInt32
    omega
  unfold nearestRank
  rw [List.getElem?_eq_getElem hi, Option.map_some, hslot, refresh_eq hb, ← hprecision, hclamp]

end Histogram

namespace Indicator

open Histogram

variable {samples : List Int} {precision : Int} {rank : Nat} {k : Key}

/-- One observation for each sample. -/
def observations (k : Key) (samples : List Int) (precision : Int) (rank : Nat) : List Indicator :=
  samples.map fun s => percentile k.entity k.bucket s precision rank

theorem observations_sums (hp : IsInt32 precision) {x : Indicator} (hx : x ∈ observations k samples precision rank) :
    Sums k (.percentile, some (max precision 1, max 1 (min rank 100))) x.value.raw x := by
  obtain ⟨s, -, rfl⟩ := List.mem_map.1 hx
  exact ⟨rfl, ofSample_proper s rank hp, rfl, rfl⟩

/-- The observations add up to the numbers of samples in each slot. -/
theorem rawSum_observations :
    rawSum (observations k samples precision rank) = (0, 0, fun i => ((samples.map (slot precision)).count i : Int)) := by
  induction samples with
  | nil => rfl
  | cons s samples ih =>
    unfold observations at ih ⊢
    rw [List.map_cons, rawSum_cons, ih]
    refine Prod.ext rfl (Prod.ext rfl (funext ?_))
    intro i
    show Bin.countIn [⟨slot precision s, 1⟩] i + ((samples.map (slot precision)).count i : Int) =
      ((slot precision s :: samples.map (slot precision)).count i : Nat)
    rw [List.count_cons, Bin.countIn_cons, Bin.countIn_nil]
    by_cases hi : slot precision s = i <;> simp [hi, add_comm]

/-- However the observations are combined, they come to the percentile of the samples. -/
theorem result_observations (hne : samples ≠ []) (hp : IsInt32 precision) {p : Plan}
    (hinputs : p.inputs.Perm (observations k samples precision rank)) :
    ∃ h : Histogram, h.Proper ∧ p.refreshed.result = some ⟨k, .percentile h.refresh⟩ ∧
      nearestRank samples precision rank = some h.refresh.value := by
  obtain ⟨⟨key, value⟩, hresult, hsum⟩ := p.result_sums fun x hx => observations_sums hp (hinputs.subset hx)
  obtain rfl : key = k := hsum.key
  have hraw := hsum.raw
  have hform := hsum.form
  rw [rawSum_perm hinputs, rawSum_observations] at hraw
  cases value with
  | count n => cases hform
  | average a => cases hform
  | share s => cases hform
  | percentile h =>
    have hproper : h.Proper := hsum.proper
    simp only [Aggregate.form, Aggregate.shape, Prod.mk.injEq, Option.some.injEq] at hform
    obtain ⟨-, hprecision, hrank⟩ := hform
    simp only [Aggregate.raw, Prod.mk.injEq, true_and] at hraw
    refine ⟨h, hproper, ?_, nearestRank_refresh hne hproper hprecision hrank (congrFun hraw)⟩
    rw [Plan.result, hresult]
    rfl

/-- The percentile of at least one sample, however the observations are combined, is the nearest-rank sample
rounded down to the width of a bin. Its place is among the samples, so a bin is always found and the figure
does not depend on the one computed last; and a higher rank never gives a lower figure. -/
theorem percentile_is_nearest_rank (hne : samples ≠ []) (hp : IsInt32 precision) (k : Key) (rank : Nat) :
    (1 ≤ place samples.length rank ∧ place samples.length rank ≤ samples.length) ∧
    (∀ p : Plan, p.inputs.Perm (observations k samples precision rank) →
      ∃ h : Histogram, p.refreshed.result = some ⟨k, .percentile h⟩ ∧
        nearestRank samples precision rank = some h.value ∧
        (∃ b, firstReaching h.threshold 0 h.bins = some b) ∧ ∀ last, { h with value := last }.refresh = h) ∧
    (∀ rank' ≥ rank, ∀ p p' : Plan, p.inputs.Perm (observations k samples precision rank) →
      p'.inputs.Perm (observations k samples precision rank') →
      ∃ x y, p.refreshed.result = some x ∧ p'.refreshed.result = some y ∧ x.value.figure ≤ y.value.figure) := by
  refine ⟨⟨le_max_left _ _, place_le rank (List.length_pos_iff.2 hne)⟩, ?_, ?_⟩
  · intro p hinputs
    obtain ⟨h, hproper, hresult, hvalue⟩ := result_observations hne hp hinputs
    have hfresh := hproper.refresh
    refine ⟨h.refresh, hresult, hvalue, firstReaching_tidy hfresh.tidy hfresh.nonempty hfresh.rank.2, ?_⟩
    intro last
    refine (hproper.refresh_congr (g := { h.refresh with value := last }) ?_ ?_).symm
    · exact ⟨h.refresh_precision.symm, h.refresh_rank.symm⟩
    · exact h.refresh_bins.symm
  · intro rank' hle p p' hinputs hinputs'
    obtain ⟨h, -, hresult, hvalue⟩ := result_observations hne hp hinputs
    obtain ⟨g, -, hresult', hvalue'⟩ := result_observations hne hp hinputs'
    exact ⟨_, _, hresult, hresult', nearestRank_mono hle hvalue hvalue'⟩

/-- Five calls, the third of them reported with a negative time. -/
def fiveCalls : List Int := [34, 12, -7, 120, 31]

/-- The same calls, the last three combined first. -/
def fiveCallsPlan (rank : Nat) : Plan :=
  let call (ms : Int) : Plan := .single (.percentile "checkout" ⟨202403151427⟩ ms 10 rank)
  .combined (.refreshed (.combined (.combined (call (-7)) (call 120)) (call 31))) (.combined (call 34) (call 12))

theorem fiveCallsPlan_inputs (rank : Nat) :
    (fiveCallsPlan rank).inputs.Perm (observations ⟨"checkout", ⟨202403151427⟩⟩ fiveCalls 10 rank) :=
  (List.perm_append_comm_assoc [_, _] [_, _, _] []).symm

/-- Of five calls the fourth in order stands at seventy hundredths and took 34, the fifth at ninety and took 120. -/
theorem percentile_is_nearest_rank_fiveCalls :
    fiveCalls ≠ [] ∧ IsInt32 10 ∧ (90 ≥ 70) ∧
      (∃ h : Histogram, (fiveCallsPlan 70).refreshed.result = some ⟨⟨"checkout", ⟨202403151427⟩⟩, .percentile h⟩ ∧
        h.value = 30) ∧
      ∃ x y, (fiveCallsPlan 70).refreshed.result = some x ∧ (fiveCallsPlan 90).refreshed.result = some y ∧
        x.value.figure ≤ y.value.figure := by
  have hne : fiveCalls ≠ [] := List.cons_ne_nil _ _
  have hp : IsInt32 10 := by decide
  obtain ⟨-, hplans, hmono⟩ := percentile_is_nearest_rank hne hp ⟨"checkout", ⟨202403151427⟩⟩ 70
  obtain ⟨h, hresult, hvalue, -⟩ := hplans (fiveCallsPlan 70) (fiveCallsPlan_inputs 70)
  have hnearest : nearestRank fiveCalls 10 70 = some 30 := by decide
  refine ⟨hne, hp, by decide, ⟨h, hresult, ?_⟩, ?_⟩
  · exact Option.some.inj (hvalue.symm.trans hnearest)
  · exact hmono 90 (by decide) _ _ (fiveCallsPlan_inputs 70) (fiveCallsPlan_inputs 90)

end Indicator

end MetricCascade
