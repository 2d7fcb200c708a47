/-
Windows within windows. The width of a code fits one level only, so widening in steps ends in the same
window as widening at once.
-/
import MetricCascade.Metric.Indicator
import Mathlib.Tactic.Common

namespace MetricCascade

namespace Bucket

theorem hasLevel_iff {b : Bucket} {l : Level} :
    b.hasLevel l = true ↔ l.leastCode ≤ b.code ∧ b.code < 10 * l.leastCode := by
  simp only [hasLevel, Bool.and_eq_true, decide_eq_true_eq]

/-- No code has the widths of two levels. -/
theorem hasLevel_unique {b : Bucket} {l m : Level} (hl : b.hasLevel l = true) (hm : b.hasLevel m = true) : l = m := by
  rw [hasLevel_iff] at hl hm
  cases l <;> cases m <;> first | rfl | (simp only [Level.leastCode] at hl hm; omega)

theorem level_eq_ok_iff {b : Bucket} {l : Level} : b.level = .ok l ↔ b.hasLevel l = true := by
  have hfind : b.level? = some l ↔ b.hasLevel l = true := by
    unfold level?
    constructor
    · exact fun h => List.find?_some h
    · intro h
      obtain ⟨m, hm⟩ := Option.isSome_iff_exists.1 (List.find?_isSome.2 ⟨l, by cases l <;> simp [Level.all], h⟩ :
        (Level.all.find? b.hasLevel).isSome = true)
      rw [hm, hasLevel_unique (List.find?_some hm) h]
  rw [← hfind]
  unfold level
  cases b.level? <;> simp

theorem dropPairs_add (i j : Nat) (n : Int) : dropPairs (i + j) n = dropPairs j (dropPairs i n) := by
  induction i generalizing n with
  | zero => rw [Nat.zero_add, dropPairs]
  | succ i ih => rw [Nat.succ_add, dropPairs, dropPairs, ih]

theorem hasLevel_dropPairs {b : Bucket} {l m : Level} (hb : b.hasLevel l = true) (hle : l ≤ m) :
    (⟨dropPairs (m.rank - l.rank) b.code⟩ : Bucket).hasLevel m = true := by
  have hrank : l.rank ≤ m.rank := hle
  rw [hasLevel_iff] at hb ⊢
  cases l <;> cases m <;> simp only [Level.rank, Level.leastCode, Nat.sub_self, dropPairs] at hb hrank ⊢ <;> omega

/-- Windows are widened by dropping digits, to a level that is not finer. -/
theorem widen_eq_ok_iff {b c : Bucket} {m : Level} :
    b.widen m = .ok c ↔ ∃ l, b.hasLevel l = true ∧ l ≤ m ∧ c = ⟨dropPairs (m.rank - l.rank) b.code⟩ := by
  unfold widen
  constructor
  · intro h
    cases hl : b.level with
    | error e => rw [hl] at h; cases h
    | ok l =>
      rw [hl] at h
      dsimp only at h
      split at h
      · rename_i hle
        exact ⟨l, level_eq_ok_iff.1 hl, hle, (Except.ok.inj h).symm⟩
      · cases h
  · rintro ⟨l, hl, hle, rfl⟩
    rw [level_eq_ok_iff.2 hl]
    exact if_pos hle

/-- Widening is refused for a code of no level and for one of a coarser level, and each reason is told. -/
theorem widen_eq_error_iff {b : Bucket} {m : Level} {e : BucketError} :
    b.widen m = .error e ↔ (∀ l, b.hasLevel l = false) ∧ e = .unknownLevel b ∨
      ∃ l, b.hasLevel l = true ∧ ¬ l ≤ m ∧ e = .finerTarget b l m := by
  unfold widen
  cases hlevel : b.level with
  | error e' =>
    have hnone : ∀ l, b.hasLevel l = false := by
      intro l
      by_contra hl
      rw [level_eq_ok_iff.2 (by simpa using hl)] at hlevel
      cases hlevel
    obtain rfl : e' = .unknownLevel b := by
      unfold level at hlevel
      cases hl : b.level? with
      | some l => rw [hl] at hlevel; cases hlevel
      | none => rw [hl] at hlevel; exact (Except.error.inj hlevel).symm
    dsimp only
    constructor
    · intro h
      exact .inl ⟨hnone, (Except.error.inj h).symm⟩
    · rintro (⟨-, rfl⟩ | ⟨l, hl, -⟩)
      · rfl
      · rw [hnone l] at hl
        cases hl
  | ok l =>
    have hl := level_eq_ok_iff.1 hlevel
    dsimp only
    constructor
    · intro h
      split at h
      · cases h
      · rename_i hle
        exact .inr ⟨l, hl, hle, (Except.error.inj h).symm⟩
    · rintro (⟨hnone, -⟩ | ⟨n, hn, hle, rfl⟩)
      · rw [hnone l] at hl
        cases hl
      · obtain rfl := hasLevel_unique hl hn
        exact if_neg hle

/-- Widening in two steps is widening at once. -/
theorem widen_widen {b c : Bucket} {l m : Level} (h : b.widen l = .ok c) (hle : l ≤ m) : c.widen m = b.widen m := by
  obtain ⟨k, hk, hkl, rfl⟩ := widen_eq_ok_iff.1 h
  have hrank : k.rank ≤ l.rank := hkl
  have hrank' : l.rank ≤ m.rank := hle
  have hkm : k ≤ m := Nat.le_trans hrank hrank'
  rw [widen_eq_ok_iff.2 ⟨k, hk, hkm, rfl⟩]
  refine widen_eq_ok_iff.2 ⟨l, hasLevel_dropPairs hk hkl, hle, ?_⟩
  rw [← dropPairs_add, show l.rank - k.rank + (m.rank - l.rank) = m.rank - k.rank by omega]

end Bucket

theorem Level.le_month (l : Level) : l ≤ .month := by cases l <;> decide

namespace Indicator

/-- Rolling up changes the window and nothing else. -/
theorem rollup_eq_ok_iff {x y : Indicator} {l : Level} :
    x.rollup l = .ok y ↔ x.key.bucket.widen l = .ok y.key.bucket ∧ y.key.entity = x.key.entity ∧ y.value = x.value := by
  unfold rollup
  cases h : x.key.bucket.widen l with
  | error e => simp
  | ok b =>
    dsimp only
    rw [Except.ok.injEq, Except.ok.injEq]
    constructor
    · rintro rfl
      exact ⟨rfl, rfl, rfl⟩
    · rintro ⟨rfl, hentity, hvalue⟩
      rw [← hentity, ← hvalue]

end Indicator

end MetricCascade
