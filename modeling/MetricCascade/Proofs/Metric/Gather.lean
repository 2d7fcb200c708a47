/-
Indicators of one key taken together. Combining any number of them, of one form, from the first on
gives the one current aggregate whose raw figures are the sum of theirs; so neither their order nor
earlier groupings matter. What has been observed under a key is such a sum.
-/
import MetricCascade.Proofs.Metric.Raw
import MetricCascade.Proofs.Time.Widen
import Mathlib.Algebra.BigOperators.Group.List.Basic

namespace MetricCascade

/-- The code of a window of any level has 64 bits. -/
theorem Bucket.isInt64_of_hasLevel {b : Bucket} {l : Level} (h : b.hasLevel l = true) : IsInt64 b.code := by
  rw [hasLevel_iff] at h
  unfold IsInt64 minInt64 maxInt64
  cases l <;> simp only [Level.leastCode] at h <;> omega

namespace Indicator

/-- An indicator as a single observation makes it, each number within the width of its type. -/
inductive Observed : Indicator → Prop
  | count {entity : String} {bucket : Bucket} {n : Int} (hb : IsInt64 bucket.code) (hn : IsInt64 n) :
    Observed (.count entity bucket n)
  | average {entity : String} {bucket : Bucket} {n : Int} (hb : IsInt64 bucket.code) (hn : IsInt64 n) :
    Observed (.average entity bucket n)
  | share {entity : String} {bucket : Bucket} {matched : Bool} (hb : IsInt64 bucket.code) :
    Observed (.share entity bucket matched)
  | percentile {entity : String} {bucket : Bucket} {n precision : Int} {rank : Nat}
    (hb : IsInt64 bucket.code) (hn : IsInt64 n) (hp : IsInt32 precision) (hr : rank ≤ 255) :
    Observed (.percentile entity bucket n precision rank)

theorem ofSample_proper (sample : Int) {precision : Int} (rank : Nat) (hp : IsInt32 precision) :
    (Histogram.ofSample sample precision rank).Proper where
  tidy := .singleton Int.one_pos
  nonempty := List.cons_ne_nil _ _
  bucket b hb := by
    simp only [Histogram.ofSample, List.mem_singleton] at hb
    subst hb
    have hdiv : 0 ≤ max sample 0 / max precision 1 := Int.ediv_nonneg (by omega) (by omega)
    have hmax : (0 : Int) ≤ maxInt32 := by decide
    exact ⟨le_min hdiv hmax, min_le_right _ _⟩
  precision := by
    have h1 : (1 : Int) ≤ maxInt32 := by decide
    exact ⟨le_max_right _ _, max_le hp.2 h1⟩
  rank := by simp only [Histogram.ofSample]; omega

theorem Observed.proper {x : Indicator} (h : x.Observed) : x.value.Proper := by
  cases h with
  | count => trivial
  | average => exact Int.one_pos
  | share => exact Int.one_pos
  | percentile _ _ hp _ => exact ofSample_proper _ _ hp

theorem Observed.bucket {x : Indicator} (h : x.Observed) : IsInt64 x.key.bucket.code := by
  cases h <;> assumption

/-! ## Sums under a key -/

/-- The indicator is a sum of observations under `k`, of form `f` and with the raw figures `r`. -/
structure Sums (k : Key) (f : Form) (r : Raw) (x : Indicator) : Prop where
  key : x.key = k
  proper : x.value.Proper
  form : x.value.form = f
  raw : x.value.raw = r

/-- Sums under one key and of one form combine to a sum of both. -/
theorem Sums.combine {k : Key} {f : Form} {r q : Raw} {x y : Indicator} (hx : Sums k f r x)
    (hy : Sums k f q y) : ∃ z, x.combine y = .ok z ∧ Sums k f (r + q) z := by
  obtain ⟨j, hj, hproper, hform, hraw⟩ := Aggregate.combine_proper hx.proper hy.proper (hx.form.trans hy.form.symm)
  refine ⟨{ x with value := j }, ?_, hx.key, hproper, hform.trans hx.form, ?_⟩
  · unfold Indicator.combine
    rw [if_pos (hx.key.trans hy.key.symm), hj]
  · rw [hraw, hx.raw, hy.raw]

/-- Computing the figure keeps the sum. -/
theorem Sums.refresh {k : Key} {f : Form} {r : Raw} {x : Indicator} (hx : Sums k f r x) :
    ∃ z, x.refresh = .ok z ∧ Sums k f r z ∧ z.value.Current f := by
  obtain ⟨a, ha, hcurrent, hraw⟩ := Aggregate.refresh_proper hx.proper
  rw [hx.form] at hcurrent
  refine ⟨{ x with value := a }, ?_, ⟨hx.key, hcurrent.proper, hcurrent.form, hraw.trans hx.raw⟩, hcurrent⟩
  unfold Indicator.refresh
  rw [ha]
  rfl

/-! ## All of a list -/

def combine? (x y : Indicator) : Option Indicator := (x.combine y).toOption

/-- Combines indicators from the first on and computes the figure; `none` if there is none or two of
them do not combine. -/
def combineAll : List Indicator → Option Indicator
  | [] => none
  | x :: rest => (rest.foldlM combine? x).bind fun t => t.refresh.toOption

/-- Those of one key. -/
def under (k : Key) (xs : List Indicator) : List Indicator := xs.filter fun x => x.key = k

/-- The sum of the raw figures. -/
def rawSum (xs : List Indicator) : Raw := (xs.map fun x => x.value.raw).sum

@[simp] theorem rawSum_nil : rawSum [] = 0 := rfl

@[simp] theorem rawSum_cons (x : Indicator) (xs : List Indicator) :
    rawSum (x :: xs) = x.value.raw + rawSum xs := by simp [rawSum]

@[simp] theorem rawSum_append (xs ys : List Indicator) : rawSum (xs ++ ys) = rawSum xs + rawSum ys := by
  simp [rawSum]

theorem rawSum_perm {xs ys : List Indicator} (h : xs.Perm ys) : rawSum xs = rawSum ys :=
  (h.map _).sum_eq

theorem mem_under {k : Key} {xs : List Indicator} {x : Indicator} : x ∈ under k xs ↔ x ∈ xs ∧ x.key = k := by
  simp [under]

@[simp] theorem under_append (k : Key) (xs ys : List Indicator) :
    under k (xs ++ ys) = under k xs ++ under k ys := List.filter_append ..

/-- Going on through a list of sums adds them all. -/
theorem Sums.foldlM {k : Key} {f : Form} {r : Raw} {x : Indicator} (hx : Sums k f r x) (rest : List Indicator)
    (h : ∀ y ∈ rest, Sums k f y.value.raw y) :
    ∃ t, rest.foldlM combine? x = some t ∧ Sums k f (r + rawSum rest) t := by
  induction rest generalizing x r with
  | nil => exact ⟨x, rfl, by simpa using hx⟩
  | cons y rest ih =>
    obtain ⟨z, hz, hsum⟩ := hx.combine (h y (List.mem_cons_self ..))
    obtain ⟨t, ht, hall⟩ := ih hsum fun w hw => h w (List.mem_cons_of_mem _ hw)
    refine ⟨t, ?_, ?_⟩
    · rw [List.foldlM_cons, combine?, hz]
      exact ht
    · rw [rawSum_cons, ← add_assoc]
      exact hall

/-- All of a list of one key and form combine to a current aggregate of their raw sum. -/
theorem combineAll_current {k : Key} {f : Form} {xs : List Indicator} (hne : xs ≠ [])
    (h : ∀ x ∈ xs, x.key = k ∧ x.value.Proper ∧ x.value.form = f) :
    ∃ a, combineAll xs = some ⟨k, a⟩ ∧ a.Current f ∧ a.raw = rawSum xs := by
  obtain ⟨x, rest, rfl⟩ := List.exists_cons_of_ne_nil hne
  have hsums : ∀ y ∈ x :: rest, Sums k f y.value.raw y := by
    intro y hy
    obtain ⟨hkey, hproper, hform⟩ := h y hy
    exact ⟨hkey, hproper, hform, rfl⟩
  obtain ⟨t, ht, htotal⟩ := (hsums x (List.mem_cons_self ..)).foldlM rest
    fun y hy => hsums y (List.mem_cons_of_mem _ hy)
  obtain ⟨⟨j, a⟩, hrefresh, hsum, hcurrent⟩ := htotal.refresh
  obtain rfl : j = k := hsum.key
  refine ⟨a, ?_, hcurrent, ?_⟩
  · simp only [combineAll, ht, Option.bind_some, hrefresh]
    rfl
  · rw [rawSum_cons]
    exact hsum.raw

/-- Combining all of a list of one key and form gives the current aggregate of their raw sum. -/
theorem combineAll_eq {k : Key} {f : Form} {xs : List Indicator} {a : Aggregate} (hne : xs ≠ [])
    (h : ∀ x ∈ xs, x.key = k ∧ x.value.Proper ∧ x.value.form = f) (ha : a.Current f)
    (hraw : a.raw = rawSum xs) : combineAll xs = some ⟨k, a⟩ := by
  obtain ⟨b, hb, hcur, hsum⟩ := combineAll_current hne h
  rw [hb, ha.eq_of_raw hcur (hraw.trans hsum.symm)]

/-- Lists of one key and form combine to the same if their raw sums are the same. -/
theorem combineAll_eq_iff {k : Key} {f : Form} {xs ys : List Indicator} (hempty : xs = [] ↔ ys = [])
    (hxs : ∀ x ∈ xs, x.key = k ∧ x.value.Proper ∧ x.value.form = f)
    (hys : ∀ y ∈ ys, y.key = k ∧ y.value.Proper ∧ y.value.form = f) :
    combineAll xs = combineAll ys ↔ rawSum xs = rawSum ys := by
  by_cases hnil : xs = []
  · rw [hnil, hempty.1 hnil]
    exact iff_of_true rfl rfl
  · obtain ⟨a, ha, hcura, hrawa⟩ := combineAll_current hnil hxs
    obtain ⟨b, hb, hcurb, hrawb⟩ := combineAll_current (fun h => hnil (hempty.2 h)) hys
    rw [ha, hb, ← hrawa, ← hrawb]
    constructor
    · intro h
      rw [(Indicator.mk.inj (Option.some.inj h)).2]
    · intro h
      rw [hcura.eq_of_raw hcurb h]

/-- Only counts can add up to nothing. -/
theorem rawSum_eq_zero_iff {k : Key} {f : Form} {xs : List Indicator} (hf : f.1 ≠ .count)
    (h : ∀ x ∈ xs, x.key = k ∧ x.value.Proper ∧ x.value.form = f) : rawSum xs = 0 ↔ xs = [] := by
  constructor
  · intro hzero
    by_contra hne
    obtain ⟨a, -, hcur, hraw⟩ := combineAll_current hne h
    have hmeasure : a.measure ≠ .count := by
      rw [show a.measure = f.1 from congrArg Prod.fst hcur.form]
      exact hf
    exact Aggregate.raw_ne_zero hcur.proper hmeasure (hraw.trans hzero)
  · rintro rfl
    rfl

/-! ## Rolling up -/

/-- Indicators, rolled up to a level; those that cannot be are left out. -/
def rolledUp (l : Level) (xs : List Indicator) : List Indicator := xs.filterMap fun x => (x.rollup l).toOption

theorem rolledUp_append (l : Level) (xs ys : List Indicator) :
    rolledUp l (xs ++ ys) = rolledUp l xs ++ rolledUp l ys := List.filterMap_append

theorem mem_rolledUp {l : Level} {xs : List Indicator} {z : Indicator} :
    z ∈ rolledUp l xs ↔ ∃ x ∈ xs, x.rollup l = .ok z := by
  unfold rolledUp
  rw [List.mem_filterMap]
  refine exists_congr fun x => and_congr_right ?_
  intro _
  cases x.rollup l <;> simp [Except.toOption]

end Indicator

end MetricCascade
