/-
Bins as counts of samples. Adding a bin adds its count to that of its bucket, whatever the list;
in a tidy list (buckets strictly increasing, counts positive) it keeps the list tidy, and a tidy
list is determined by its counts. So tidy histograms can be compared by their counts alone.
-/
import MetricCascade.Metric.Histogram
import Mathlib.Tactic

namespace MetricCascade

namespace Bin

/-- The number of samples that a list of bins holds in bucket `k`. -/
def countIn : List Bin → Int → Int
  | [], _ => 0
  | b :: rest, k => (if b.bucket = k then b.count else 0) + countIn rest k

@[simp] theorem countIn_nil (k : Int) : countIn [] k = 0 := rfl

@[simp] theorem countIn_cons (b : Bin) (rest : List Bin) (k : Int) :
    countIn (b :: rest) k = (if b.bucket = k then b.count else 0) + countIn rest k := rfl

@[simp] theorem countIn_append (l m : List Bin) (k : Int) :
    countIn (l ++ m) k = countIn l k + countIn m k := by
  induction l with
  | nil => simp
  | cons b l ih => rw [List.cons_append, countIn_cons, countIn_cons, ih, add_assoc]

theorem countIn_eq_zero {l : List Bin} {k : Int} (h : ∀ b ∈ l, b.bucket ≠ k) : countIn l k = 0 := by
  induction l with
  | nil => rfl
  | cons b l ih =>
    rw [countIn_cons, if_neg (h b (List.mem_cons_self ..)),
      ih fun c hc => h c (List.mem_cons_of_mem _ hc), zero_add]

/-! ## Adding a bin -/

theorem countIn_beside (x here : Bin) (k : Int) :
    countIn (x.beside here) k = countIn [here] k + if x.bucket = k then x.count else 0 := by
  unfold beside
  split
  · rename_i h
    simp only [countIn_cons, countIn_nil, h]
    split <;> omega
  · split <;> simp only [countIn_cons, countIn_nil] <;> omega

/-- Adding a bin adds its count in its bucket, also to a list that is not tidy. -/
theorem countIn_addTo (x : Bin) (bins : List Bin) (k : Int) :
    countIn (x.addTo bins) k = countIn bins k + if x.bucket = k then x.count else 0 := by
  fun_induction addTo x bins with
  | case1 bins h hlt hx ih =>
    have split := congrArg (countIn · k) (List.take_append_drop (bins.length - bins.length / 2) bins)
    simp only [countIn_append] at split ⊢
    omega
  | case2 bins h hlt hx ih =>
    have split := congrArg (countIn · k) (List.take_append_drop (bins.length / 2) bins)
    simp only [countIn_append] at split ⊢
    omega
  | case3 => simp
  | case4 here rest h =>
    have hnil : rest = [] := List.eq_nil_of_length_eq_zero (by simp only [List.length_cons] at h; omega)
    subst hnil
    exact countIn_beside x here k

theorem mem_beside {x here b : Bin} (h : b ∈ x.beside here) :
    b.bucket = x.bucket ∨ b.bucket = here.bucket := by
  unfold beside at h
  split at h
  · simp only [List.mem_singleton] at h; subst h; exact .inr rfl
  · split at h <;> simp only [List.mem_cons, List.not_mem_nil, or_false] at h <;>
      rcases h with rfl | rfl <;> simp

/-- Adding a bin brings in no bucket but its own. -/
theorem mem_addTo {x b : Bin} {bins : List Bin} (h : b ∈ x.addTo bins) :
    b.bucket = x.bucket ∨ ∃ c ∈ bins, b.bucket = c.bucket := by
  fun_induction addTo x bins with
  | case1 bins _ _ _ ih =>
    rcases List.mem_append.1 h with h | h
    · rcases ih h with h | ⟨c, hc, h⟩
      · exact .inl h
      · exact .inr ⟨c, List.mem_of_mem_take hc, h⟩
    · exact .inr ⟨b, List.mem_of_mem_drop h, rfl⟩
  | case2 bins _ _ _ ih =>
    rcases List.mem_append.1 h with h | h
    · exact .inr ⟨b, List.mem_of_mem_take h, rfl⟩
    · rcases ih h with h | ⟨c, hc, h⟩
      · exact .inl h
      · exact .inr ⟨c, List.mem_of_mem_drop hc, h⟩
  | case3 => simp only [List.mem_singleton] at h; subst h; exact .inl rfl
  | case4 here rest _ =>
    rcases mem_beside h with h | h
    · exact .inl h
    · exact .inr ⟨here, List.mem_cons_self .., h⟩

theorem addTo_ne_nil (x : Bin) (bins : List Bin) : x.addTo bins ≠ [] := by
  fun_induction addTo x bins with
  | case1 bins _ _ _ ih => exact fun h => ih (List.append_eq_nil_iff.1 h).1
  | case2 bins _ _ _ ih => exact fun h => ih (List.append_eq_nil_iff.1 h).2
  | case3 => exact List.cons_ne_nil _ _
  | case4 here rest _ =>
    unfold beside
    split
    · exact List.cons_ne_nil _ _
    · split <;> exact List.cons_ne_nil _ _

/-! ## Tidy lists -/

/-- Buckets strictly increasing, and a positive count in each. -/
structure Tidy (bins : List Bin) : Prop where
  ordered : bins.Pairwise (fun a b => a.bucket < b.bucket)
  positive : ∀ b ∈ bins, 0 < b.count

theorem Tidy.tail {b : Bin} {l : List Bin} (h : Tidy (b :: l)) : Tidy l :=
  ⟨h.ordered.of_cons, fun c hc => h.positive c (List.mem_cons_of_mem _ hc)⟩

theorem Tidy.singleton {b : Bin} (h : 0 < b.count) : Tidy [b] :=
  ⟨List.pairwise_singleton .., fun c hc => by rw [List.mem_singleton] at hc; exact hc ▸ h⟩

/-- The first bin of a tidy list holds the count of its bucket. -/
theorem Tidy.countIn_head {b : Bin} {l : List Bin} (h : Tidy (b :: l)) :
    countIn (b :: l) b.bucket = b.count := by
  have hrest : countIn l b.bucket = 0 :=
    countIn_eq_zero fun c hc => (List.rel_of_pairwise_cons h.ordered hc).ne'
  rw [countIn_cons, if_pos rfl, hrest, add_zero]

/-- Each bin of a tidy list holds the count of its bucket. -/
theorem Tidy.countIn_of_mem {b : Bin} {l : List Bin} (h : Tidy l) (hb : b ∈ l) : countIn l b.bucket = b.count := by
  induction l with
  | nil => cases hb
  | cons c l ih =>
    rcases List.mem_cons.1 hb with rfl | hb
    · exact h.countIn_head
    · rw [countIn_cons, if_neg (List.rel_of_pairwise_cons h.ordered hb).ne, ih h.tail hb, zero_add]

/-- Below its first bucket a tidy list holds nothing. -/
theorem Tidy.countIn_of_lt {b : Bin} {l : List Bin} (h : Tidy (b :: l)) {k : Int} (hk : k < b.bucket) :
    countIn (b :: l) k = 0 := by
  apply countIn_eq_zero
  intro c hc
  rcases List.mem_cons.1 hc with rfl | hc
  · exact hk.ne'
  · exact (hk.trans (List.rel_of_pairwise_cons h.ordered hc)).ne'

/-- Tidy lists with the same counts are the same. -/
theorem Tidy.eq_of_countIn {l m : List Bin} (hl : Tidy l) (hm : Tidy m) (h : ∀ k, countIn l k = countIn m k) :
    l = m := by
  induction l generalizing m with
  | nil =>
    cases m with
    | nil => rfl
    | cons c m =>
      have := h c.bucket
      rw [countIn_nil, hm.countIn_head] at this
      exact absurd (hm.positive c (List.mem_cons_self ..)) (by omega)
  | cons b l ih =>
    have hb := hl.positive b (List.mem_cons_self ..)
    cases m with
    | nil =>
      have := h b.bucket
      rw [countIn_nil, hl.countIn_head] at this
      omega
    | cons c m =>
      have hc := hm.positive c (List.mem_cons_self ..)
      -- a bucket that only one of the lists could hold would have to be empty in the other
      have hbucket : b.bucket = c.bucket := by
        rcases lt_trichotomy b.bucket c.bucket with hlt | heq | hgt
        · have := h b.bucket
          rw [hl.countIn_head, hm.countIn_of_lt hlt] at this
          omega
        · exact heq
        · have := h c.bucket
          rw [hm.countIn_head, hl.countIn_of_lt hgt] at this
          omega
      have hcount : b.count = c.count := by
        have := h b.bucket
        rwa [hl.countIn_head, hbucket, hm.countIn_head] at this
      obtain rfl : b = c := by
        cases b; cases c; simp only at hbucket hcount; rw [hbucket, hcount]
      rw [ih hl.tail hm.tail fun k => by have := h k; simp only [countIn_cons] at this; omega]

theorem tidy_beside {x here : Bin} (hx : 0 < x.count) (hhere : 0 < here.count) : Tidy (x.beside here) := by
  unfold beside
  split
  · exact .singleton (by simp only; omega)
  · split <;> constructor <;> simp <;> omega

theorem le_of_mem_drop {bins : List Bin} (h : bins.Pairwise (fun a b => a.bucket < b.bucket)) {m n : Nat}
    (hm : m < bins.length) (hmn : m ≤ n) {b : Bin} (hb : b ∈ bins.drop n) : bins[m].bucket ≤ b.bucket := by
  obtain ⟨i, hi, rfl⟩ := List.getElem_of_mem hb
  rw [List.getElem_drop]
  rcases Nat.eq_or_lt_of_le (Nat.le_add_right_of_le hmn : m ≤ n + i) with heq | hlt
  · simp only [heq, le_refl]
  · exact (List.pairwise_iff_getElem.1 h m (n + i) hm (by rw [List.length_drop] at hi; omega) hlt).le

theorem lt_of_mem_take {bins : List Bin} (h : bins.Pairwise (fun a b => a.bucket < b.bucket)) {m : Nat}
    (hm : m < bins.length) {b : Bin} (hb : b ∈ bins.take m) : b.bucket < bins[m].bucket := by
  obtain ⟨i, hi, rfl⟩ := List.getElem_of_mem hb
  rw [List.getElem_take]
  rw [List.length_take] at hi
  exact List.pairwise_iff_getElem.1 h i m (by omega) hm (by omega)

/-- Two tidy lists, the first below the second, make a tidy list. -/
theorem Tidy.append {l m : List Bin} (hl : Tidy l) (hm : Tidy m)
    (h : ∀ a ∈ l, ∀ b ∈ m, a.bucket < b.bucket) : Tidy (l ++ m) :=
  ⟨List.pairwise_append.2 ⟨hl.ordered, hm.ordered, h⟩,
    fun b hb => (List.mem_append.1 hb).elim (hl.positive b) (hm.positive b)⟩

theorem Tidy.take {l : List Bin} (h : Tidy l) (n : Nat) : Tidy (l.take n) :=
  ⟨h.ordered.sublist (List.take_sublist n l), fun b hb => h.positive b (List.mem_of_mem_take hb)⟩

theorem Tidy.drop {l : List Bin} (h : Tidy l) (n : Nat) : Tidy (l.drop n) :=
  ⟨h.ordered.sublist (List.drop_sublist n l), fun b hb => h.positive b (List.mem_of_mem_drop hb)⟩

theorem Tidy.lt_of_take_drop {l : List Bin} (h : Tidy l) {n : Nat} {a b : Bin} (ha : a ∈ l.take n)
    (hb : b ∈ l.drop n) : a.bucket < b.bucket := by
  have hord := h.ordered
  rw [← List.take_append_drop n l] at hord
  exact (List.pairwise_append.1 hord).2.2 a ha b hb

/-- Adding a bin keeps a list tidy: each halving keeps the half that the new bucket belongs to. -/
theorem Tidy.addTo {x : Bin} {bins : List Bin} (hx : 0 < x.count) (h : Tidy bins) : Tidy (x.addTo bins) := by
  fun_induction Bin.addTo x bins with
  | case1 bins hlen hmid hbelow ih =>
    refine (ih (h.take _)).append (h.drop _) ?_
    intro a ha b hb
    rcases mem_addTo ha with hax | ⟨c, hc, hac⟩
    · have := le_of_mem_drop h.ordered hmid (by omega) hb
      omega
    · rw [hac]
      exact h.lt_of_take_drop hc hb
  | case2 bins hlen hmid hbelow ih =>
    refine (h.take _).append (ih (h.drop _)) ?_
    intro a ha b hb
    rcases mem_addTo hb with hbx | ⟨c, hc, hbc⟩
    · have := lt_of_mem_take h.ordered hmid ha
      omega
    · rw [hbc]
      exact h.lt_of_take_drop ha hc
  | case3 => exact .singleton hx
  | case4 here rest _ => exact tidy_beside hx (h.positive here (List.mem_cons_self ..))

end Bin

namespace Histogram

open Bin

/-! ## Adding histograms -/

theorem countIn_foldl_addTo (l bins : List Bin) (k : Int) :
    countIn (l.foldl (fun bins x => x.addTo bins) bins) k = countIn bins k + countIn l k := by
  induction l generalizing bins with
  | nil => simp
  | cons x l ih => rw [List.foldl_cons, ih, countIn_addTo, countIn_cons]; ring

theorem tidy_foldl_addTo {l bins : List Bin} (hl : ∀ x ∈ l, 0 < x.count) (hb : Tidy bins) :
    Tidy (l.foldl (fun bins x => x.addTo bins) bins) := by
  induction l generalizing bins with
  | nil => exact hb
  | cons x l ih =>
    exact ih (fun y hy => hl y (List.mem_cons_of_mem _ hy)) (hb.addTo (hl x (List.mem_cons_self ..)))

theorem mem_foldl_addTo {l bins : List Bin} {b : Bin} (h : b ∈ l.foldl (fun bins x => x.addTo bins) bins) :
    ∃ c ∈ bins ++ l, b.bucket = c.bucket := by
  induction l generalizing bins with
  | nil => exact ⟨b, by simpa using h, rfl⟩
  | cons x l ih =>
    obtain ⟨c, hc, hbc⟩ := ih h
    rcases List.mem_append.1 hc with hc | hc
    · rcases mem_addTo hc with hcx | ⟨d, hd, hcd⟩
      · exact ⟨x, by simp, hbc.trans hcx⟩
      · exact ⟨d, by simp [hd], hbc.trans hcd⟩
    · exact ⟨c, by simp [hc], hbc⟩

theorem foldl_addTo_ne_nil (l : List Bin) {bins : List Bin} (h : bins ≠ []) :
    l.foldl (fun bins x => x.addTo bins) bins ≠ [] := by
  induction l generalizing bins with
  | nil => exact h
  | cons x l ih => exact ih (addTo_ne_nil x bins)

/-- The counts of a sum are the sums of the counts, bucket by bucket. -/
theorem countIn_add (h g : Histogram) (k : Int) :
    countIn (h.add g).bins k = countIn h.bins k + countIn g.bins k :=
  countIn_foldl_addTo g.bins h.bins k

/-! ## The percentile of a tidy histogram -/

theorem foldr_count_nonneg {l : List Bin} (h : ∀ b ∈ l, 0 < b.count) :
    0 ≤ l.foldr (fun b n => b.count + n) 0 := by
  induction l with
  | nil => exact le_rfl
  | cons b l ih =>
    have hb := h b (List.mem_cons_self ..)
    have hl := ih fun c hc => h c (List.mem_cons_of_mem _ hc)
    rw [List.foldr_cons]
    omega

/-- The threshold never exceeds the number of samples, because no rank exceeds a hundred. -/
theorem threshold_le_total {h : Histogram} (ht : Tidy h.bins) (hr : h.rank ≤ 100) : h.threshold ≤ h.total := by
  have htotal : 0 ≤ h.total := foldr_count_nonneg ht.positive
  have hlow : 0 ≤ h.total * (h.rank : Int) := mul_nonneg htotal (Int.natCast_nonneg _)
  have hhigh : h.total * (h.rank : Int) ≤ h.total * 100 :=
    mul_le_mul_of_nonneg_left (by exact_mod_cast hr) htotal
  unfold threshold
  rw [Int.tdiv_eq_ediv_of_nonneg (by omega)]
  omega

theorem firstReaching_isSome {l : List Bin} {threshold running : Int} (hne : l ≠ [])
    (h : threshold ≤ running + l.foldr (fun b n => b.count + n) 0) :
    (firstReaching threshold running l).isSome = true := by
  induction l generalizing running with
  | nil => exact absurd rfl hne
  | cons b l ih =>
    unfold firstReaching
    split
    · rfl
    · rename_i hlt
      rw [List.foldr_cons] at h
      refine ih ?_ (by omega)
      rintro rfl
      simp only [List.foldr_nil] at h
      omega

/-- A tidy histogram that is not empty has a bin with the percentile. -/
theorem firstReaching_tidy {h : Histogram} (ht : Tidy h.bins) (hne : h.bins ≠ []) (hr : h.rank ≤ 100) :
    ∃ b, firstReaching h.threshold 0 h.bins = some b :=
  Option.isSome_iff_exists.1 (firstReaching_isSome hne (by
    have := threshold_le_total ht hr
    unfold total at this
    omega))

theorem refresh_eq {h : Histogram} {b : Bin} (hb : firstReaching h.threshold 0 h.bins = some b) :
    h.refresh = { h with value := clampInt32 (b.bucket * h.precision) } := by
  unfold refresh
  rw [hb]

theorem refresh_eq_self {h : Histogram} (hnone : firstReaching h.threshold 0 h.bins = none) : h.refresh = h := by
  unfold refresh
  rw [hnone]

/-- The percentile of a tidy histogram does not depend on the one computed last. -/
theorem refresh_congr {h g : Histogram} (ht : Tidy h.bins) (hne : h.bins ≠ []) (hr : h.rank ≤ 100)
    (hshape : h.SameShape g) (hbins : h.bins = g.bins) : h.refresh = g.refresh := by
  obtain ⟨b, hb⟩ := firstReaching_tidy ht hne hr
  have htotal : g.total = h.total := by unfold total; rw [hbins]
  have hg : firstReaching g.threshold 0 g.bins = some b := by
    rw [← hb, ← hbins]
    unfold threshold
    rw [htotal, hshape.2]
  rw [refresh_eq hb, refresh_eq hg]
  cases h
  cases g
  obtain ⟨rfl, rfl⟩ := hshape
  simp only at hbins ⊢
  rw [hbins]

@[simp] theorem refresh_bins (h : Histogram) : h.refresh.bins = h.bins := by
  unfold refresh; split <;> rfl

@[simp] theorem refresh_precision (h : Histogram) : h.refresh.precision = h.precision := by
  unfold refresh; split <;> rfl

@[simp] theorem refresh_rank (h : Histogram) : h.refresh.rank = h.rank := by
  unfold refresh; split <;> rfl

end Histogram

end MetricCascade
