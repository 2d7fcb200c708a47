/-
Instants and their windows. The code of a window is a number of the date and the time of day, level by
level, so that the windows of a level stand in the order of the instants in them and no two windows share
a code. Years of four digits are those whose codes have the width of their level.
-/
import MetricCascade.Proofs.Time.Calendar
import MetricCascade.Proofs.Time.Widen

namespace MetricCascade

namespace Minute

/-- The minute that holds an instant, with dates taken from a calendar. -/
def onCalendar (date : Int → Date) (ms : Int) : Minute :=
  ⟨date (ms / millisPerDay), ms % millisPerDay / 60000 / 60, ms % millisPerDay / 60000 % 60⟩

/-- Two minutes lie in the same window of a level. -/
def Same : Level → Minute → Minute → Prop
  | .minute, m, n => m = n
  | .hour, m, n => m.date = n.date ∧ m.hour = n.hour
  | .day, m, n => m.date = n.date
  | .month, m, n => m.date.year = n.date.year ∧ m.date.month = n.date.month

instance : (l : Level) → (m n : Minute) → Decidable (Same l m n)
  | .minute, m, n => inferInstanceAs (Decidable (m = n))
  | .hour, m, n => inferInstanceAs (Decidable (m.date = n.date ∧ m.hour = n.hour))
  | .day, m, n => inferInstanceAs (Decidable (m.date = n.date))
  | .month, m, n => inferInstanceAs (Decidable (m.date.year = n.date.year ∧ m.date.month = n.date.month))

/-- The code of the window of a level that holds a minute. -/
def codeAt : Level → Minute → Int
  | .minute, m => m.date.code * 10000 + m.hour * 100 + m.minute
  | .hour, m => m.date.code * 100 + m.hour
  | .day, m => m.date.code
  | .month, m => m.date.year * 100 + m.date.month

/-- A minute of a day, on a date of the calendar. -/
structure Valid (m : Minute) : Prop where
  date : m.date.Valid
  hour : 0 ≤ m.hour ∧ m.hour ≤ 23
  minute : 0 ≤ m.minute ∧ m.minute ≤ 59

variable {m n : Minute}

theorem Valid.date_bounds (h : m.Valid) :
    1 ≤ m.date.month ∧ m.date.month ≤ 12 ∧ 1 ≤ m.date.day ∧ m.date.day ≤ 31 := by
  have hdays := Date.daysIn_bounds m.date.year m.date.month
  have hday := h.date.day
  exact ⟨h.date.month.1, h.date.month.2, hday.1, by omega⟩

/-- Dates of the calendar are told apart by their numbers. -/
theorem Valid.date_eq_iff (hm : m.Valid) (hn : n.Valid) : m.date = n.date ↔ m.date.code = n.date.code := by
  constructor
  · intro h
    rw [h]
  · intro h
    have hboundsm := hm.date_bounds
    have hboundsn := hn.date_bounds
    unfold Date.code at h
    generalize m.date = d at *
    generalize n.date = e at *
    cases d
    cases e
    simp only [Date.mk.injEq] at *
    omega

/-- The code of a window says which window it is. -/
theorem Valid.codeAt_eq_iff (hm : m.Valid) (hn : n.Valid) (l : Level) : codeAt l m = codeAt l n ↔ Same l m n := by
  have hdate := hm.date_eq_iff hn
  obtain ⟨-, ⟨hh, hh'⟩, hmi, hmi'⟩ := id hm
  obtain ⟨-, ⟨hk, hk'⟩, hmk, hmk'⟩ := id hn
  cases l with
  | minute =>
    have hsame : m = n ↔ m.date = n.date ∧ m.hour = n.hour ∧ m.minute = n.minute := by
      cases m
      cases n
      exact Iff.of_eq (mk.injEq ..)
    simp only [codeAt, Same]
    rw [hsame, hdate]
    omega
  | hour =>
    simp only [codeAt, Same]
    rw [hdate]
    omega
  | day => exact hdate.symm
  | month =>
    have hboundsm := hm.date_bounds
    have hboundsn := hn.date_bounds
    simp only [codeAt, Same]
    omega

/-- A coarser code drops the last digits of a finer one. -/
theorem Valid.dropPairs_codeAt (hm : m.Valid) (l : Level) : Bucket.dropPairs l.rank (codeAt .minute m) = codeAt l m := by
  have hbounds := hm.date_bounds
  obtain ⟨-, ⟨hh, hh'⟩, hmi, hmi'⟩ := hm
  cases l <;> simp only [Level.rank, Bucket.dropPairs, codeAt, Date.code] <;> omega

theorem ofMinute_eq (m : Minute) : Bucket.ofMinute m = ⟨codeAt .minute m⟩ := by
  simp only [Bucket.ofMinute, codeAt, Date.code, Bucket.mk.injEq]
  ring

/-- The codes of minutes have twelve digits when their years have four. -/
theorem Valid.hasLevel_iff (hm : m.Valid) :
    (⟨codeAt .minute m⟩ : Bucket).hasLevel .minute = true ↔ 1000 ≤ m.date.year ∧ m.date.year ≤ 9999 := by
  have hbounds := hm.date_bounds
  obtain ⟨-, ⟨hh, hh'⟩, hmi, hmi'⟩ := hm
  rw [Bucket.hasLevel_iff]
  simp only [codeAt, Date.code, Level.leastCode]
  omega

/-! ## Instants -/

variable {date : Int → Date}

theorem onCalendar_valid (hdate : Gregorian date) (ms : Int) : (onCalendar date ms).Valid where
  date := hdate.valid _
  hour := by
    dsimp only [onCalendar, millisPerDay]
    omega
  minute := by
    dsimp only [onCalendar]
    omega

theorem dropPairs_mono (k : Nat) {a b : Int} (h : a ≤ b) : Bucket.dropPairs k a ≤ Bucket.dropPairs k b := by
  induction k generalizing a b with
  | zero => exact h
  | succ k ih => exact ih (Int.ediv_le_ediv (by decide) h)

/-- Later instants never lie in a window with a lower code. -/
theorem codeAt_le (hdate : Gregorian date) {ms₁ ms₂ : Int} (h : ms₁ ≤ ms₂) (l : Level) :
    codeAt l (onCalendar date ms₁) ≤ codeAt l (onCalendar date ms₂) := by
  have hvalid₁ := onCalendar_valid hdate ms₁
  have hvalid₂ := onCalendar_valid hdate ms₂
  have hminute : codeAt .minute (onCalendar date ms₁) ≤ codeAt .minute (onCalendar date ms₂) := by
    have hday : ms₁ / millisPerDay ≤ ms₂ / millisPerDay := Int.ediv_le_ediv (by decide) h
    rcases hday.lt_or_eq with hlt | heq
    · -- on a later day the date alone decides
      have hcode : (onCalendar date ms₁).date.code < (onCalendar date ms₂).date.code := hdate.code_strictMono hlt
      obtain ⟨-, ⟨hh, hh'⟩, hmi, hmi'⟩ := hvalid₁
      obtain ⟨-, ⟨hk, hk'⟩, hmk, hmk'⟩ := hvalid₂
      simp only [codeAt]
      omega
    · have htime : ms₁ % millisPerDay / 60000 ≤ ms₂ % millisPerDay / 60000 := by
        unfold millisPerDay at *
        omega
      simp only [codeAt, onCalendar, heq]
      omega
  rw [← hvalid₁.dropPairs_codeAt, ← hvalid₂.dropPairs_codeAt]
  exact dropPairs_mono l.rank hminute

end Minute

namespace Bucket

open Minute

variable {date : Int → Date} {b : Bucket} {ms : Int}

/-- An instant has a code if its year has four digits, and is reported to be out of range if not. -/
theorem ofMillis_eq (hdate : Gregorian date) (ms : Int) :
    ofMillis ms = if 1000 ≤ (onCalendar date ms).date.year ∧ (onCalendar date ms).date.year ≤ 9999
      then .ok ⟨codeAt .minute (onCalendar date ms)⟩ else .error (.outOfRange ms) := by
  have hlevel := (onCalendar_valid hdate ms).hasLevel_iff
  have hminute : Minute.ofMillis ms = onCalendar date ms := by
    rw [hdate.eq_ofEpochDay]
    rfl
  unfold ofMillis
  dsimp only
  rw [hminute, ofMinute_eq]
  exact if_congr hlevel rfl rfl

theorem ofMillis_ok (hdate : Gregorian date) (h : ofMillis ms = .ok b) :
    b.hasLevel .minute = true ∧ b.code = codeAt .minute (onCalendar date ms) := by
  rw [ofMillis_eq hdate] at h
  split at h
  · rename_i hyear
    cases h
    exact ⟨(onCalendar_valid hdate ms).hasLevel_iff.2 hyear, rfl⟩
  · cases h

/-- The window of any level that holds an instant. -/
theorem widen_ofMillis (hdate : Gregorian date) (h : ofMillis ms = .ok b) (l : Level) :
    b.widen l = .ok ⟨codeAt l (onCalendar date ms)⟩ ∧ level ⟨codeAt l (onCalendar date ms)⟩ = .ok l := by
  obtain ⟨hlevel, hcode⟩ := ofMillis_ok hdate h
  have hfinest : Level.minute ≤ l := Nat.zero_le _
  have hdrop : dropPairs (l.rank - Level.minute.rank) b.code = codeAt l (onCalendar date ms) := by
    rw [hcode]
    exact (onCalendar_valid hdate ms).dropPairs_codeAt l
  have hwide := hasLevel_dropPairs hlevel hfinest
  rw [hdrop] at hwide
  refine ⟨widen_eq_ok_iff.2 ⟨.minute, hlevel, hfinest, ?_⟩, level_eq_ok_iff.2 hwide⟩
  rw [hdrop]

/-- On the Gregorian calendar an instant has a code exactly if its year has four digits. At every level, the windows of
such instants have codes of that level that never decrease with time, and two instants have the same code
exactly if they lie in the same minute, hour, day or month. -/
theorem windows_partition_time (hdate : Gregorian date) :
    (∀ ms, (1000 ≤ (onCalendar date ms).date.year ∧ (onCalendar date ms).date.year ≤ 9999 → ∃ b, ofMillis ms = .ok b) ∧
      (¬ (1000 ≤ (onCalendar date ms).date.year ∧ (onCalendar date ms).date.year ≤ 9999) →
        ofMillis ms = .error (.outOfRange ms))) ∧
    ∀ ms₁ ms₂ b₁ b₂, ms₁ ≤ ms₂ → ofMillis ms₁ = .ok b₁ → ofMillis ms₂ = .ok b₂ → ∀ l, ∃ c₁ c₂,
      b₁.widen l = .ok c₁ ∧ b₂.widen l = .ok c₂ ∧ c₁.level = .ok l ∧ c₂.level = .ok l ∧ c₁.code ≤ c₂.code ∧
        (c₁ = c₂ ↔ Same l (onCalendar date ms₁) (onCalendar date ms₂)) := by
  constructor
  · intro ms
    rw [ofMillis_eq hdate]
    exact ⟨fun hyear => ⟨_, if_pos hyear⟩, fun hyear => if_neg hyear⟩
  · intro ms₁ ms₂ b₁ b₂ hle h₁ h₂ l
    obtain ⟨hwiden₁, hlevel₁⟩ := widen_ofMillis hdate h₁ l
    obtain ⟨hwiden₂, hlevel₂⟩ := widen_ofMillis hdate h₂ l
    refine ⟨_, _, hwiden₁, hwiden₂, hlevel₁, hlevel₂, codeAt_le hdate hle l, ?_⟩
    rw [Bucket.mk.injEq]
    exact (onCalendar_valid hdate ms₁).codeAt_eq_iff (onCalendar_valid hdate ms₂) l

/-- The last millisecond of 1969 and the first of 1970 lie in different months, in this order; the year 1 has
no codes. -/
theorem windows_partition_time_newYear :
    Gregorian Date.ofEpochDay ∧ (-1 : Int) ≤ 0 ∧ ofMillis (-1) = .ok ⟨196912312359⟩ ∧
      ofMillis 0 = .ok ⟨197001010000⟩ ∧ ofMillis (-62135596800000) = .error (.outOfRange (-62135596800000)) ∧
      ∃ c₁ c₂, widen ⟨196912312359⟩ .month = .ok c₁ ∧ widen ⟨197001010000⟩ .month = .ok c₂ ∧ c₁.code ≤ c₂.code ∧
        c₁ ≠ c₂ := by
  have hbefore : ofMillis (-1) = .ok ⟨196912312359⟩ := by decide
  have hafter : ofMillis 0 = .ok ⟨197001010000⟩ := by decide
  obtain ⟨hyears, hwindows⟩ := windows_partition_time gregorian_ofEpochDay
  obtain ⟨c₁, c₂, hwiden₁, hwiden₂, -, -, hle, hsame⟩ := hwindows (-1) 0 _ _ (by decide) hbefore hafter .month
  refine ⟨gregorian_ofEpochDay, by decide, hbefore, hafter, (hyears _).2 (by decide), c₁, c₂, hwiden₁, hwiden₂, hle, ?_⟩
  rw [ne_eq, hsame]
  decide

end Bucket

end MetricCascade
