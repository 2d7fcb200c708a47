/-
The Gregorian calendar, told by its rules: the lengths of the months, which years have a leap day, what
date follows a date, and that day zero is the first of January 1970. One calendar follows these rules, and
the arithmetic on day numbers computes it. Written as a number, dates grow from each day to the next.
-/
import MetricCascade.Time.Calendar
import Mathlib.Tactic

namespace MetricCascade

namespace Date

/-! ## The rules -/

/-- The number of days in a month. -/
def daysIn (year month : Int) : Int :=
  if month = 2 then (if isLeap year then 29 else 28)
  else if month = 4 ∨ month = 6 ∨ month = 9 ∨ month = 11 then 30 else 31

/-- The day is one of the month and the month one of the year. -/
structure Valid (d : Date) : Prop where
  month : 1 ≤ d.month ∧ d.month ≤ 12
  day : 1 ≤ d.day ∧ d.day ≤ daysIn d.year d.month

/-- The date of the day after. -/
def next (d : Date) : Date :=
  if d.day < daysIn d.year d.month then { d with day := d.day + 1 }
  else if d.month < 12 then ⟨d.year, d.month + 1, 1⟩
  else ⟨d.year + 1, 1, 1⟩

theorem daysIn_bounds (year month : Int) : 28 ≤ daysIn year month ∧ daysIn year month ≤ 31 := by
  unfold daysIn
  split_ifs <;> omega

/-- Only one date of the calendar comes before another. -/
theorem next_injective {a b : Date} (ha : a.Valid) (hb : b.Valid) (h : a.next = b.next) : a = b := by
  obtain ⟨y, m, d⟩ := a
  obtain ⟨y', m', d'⟩ := b
  obtain ⟨⟨hm, hm'⟩, hd, hd'⟩ := ha
  obtain ⟨⟨hn, hn'⟩, he, he'⟩ := hb
  simp only at hm hm' hd hd' hn hn' he he'
  simp only [next] at h
  split_ifs at h <;> simp only [Date.mk.injEq] at h ⊢
  · omega
  · omega
  · omega
  · omega
  · obtain ⟨rfl, hmonth, -⟩ := h
    obtain rfl : m = m' := by omega
    omega
  · omega
  · omega
  · omega
  · obtain rfl : y = y' := by omega
    obtain rfl : m = m' := by omega
    omega

/-! ## Years -/

theorem daysBeforeYear_succ (year : Int) :
    daysBeforeYear (year + 1) = daysBeforeYear year + if isLeap year then 366 else 365 := by
  have h4 : year / 4 = (year - 1) / 4 + if year % 4 = 0 then 1 else 0 := by split_ifs <;> omega
  have h100 : year / 100 = (year - 1) / 100 + if year % 100 = 0 then 1 else 0 := by split_ifs <;> omega
  have h400 : year / 400 = (year - 1) / 400 + if year % 400 = 0 then 1 else 0 := by split_ifs <;> omega
  simp only [daysBeforeYear, isLeap, add_sub_cancel_right, decide_eq_true_eq, h4, h100, h400]
  -- a century is a fourth year as well, and a fourth century is a century
  have hcentury : year % 100 = 0 → year % 4 = 0 := by omega
  have hfourth : year % 400 = 0 → year % 100 = 0 := by omega
  split_ifs <;> omega

theorem daysBeforeYear_strictMono : StrictMono daysBeforeYear := by
  apply strictMono_int_of_lt_succ
  intro year
  rw [daysBeforeYear_succ]
  split_ifs <;> omega

/-- The days before a year, when the years before it are so many cycles of 400, 100, 4 and 1. -/
theorem daysBeforeYear_cycles (q c f s : Int) (hc : 0 ≤ c ∧ c ≤ 3) (hf : 0 ≤ f ∧ f ≤ 24) (hs : 0 ≤ s ∧ s ≤ 3) :
    daysBeforeYear (1 + 400 * q + 100 * c + 4 * f + s) = 146097 * q + 36524 * c + 1461 * f + 365 * s := by
  dsimp only [daysBeforeYear]
  omega

/-- The year after stands at the end of its cycles, of which each is as long as its years. -/
theorem daysBeforeYear_cycles_succ (q c f s : Int) (hc : 0 ≤ c ∧ c ≤ 3) (hf : 0 ≤ f ∧ f ≤ 24) (hs : 0 ≤ s ∧ s ≤ 3) :
    daysBeforeYear (1 + 400 * q + 100 * c + 4 * f + s + 1) = 146097 * q + 36524 * c + 1461 * f + 365 * (s + 1) +
      if s = 3 ∧ (f < 24 ∨ c = 3) then 1 else 0 := by
  dsimp only [daysBeforeYear]
  split_ifs <;> omega

/-- A day lies in its year. -/
theorem yearOfDay_bounds (n : Int) : daysBeforeYear (yearOfDay n) ≤ n ∧ n < daysBeforeYear (yearOfDay n + 1) := by
  dsimp only [yearOfDay]
  have hq : n = 146097 * (n / 146097) + n % 146097 := by omega
  have hr : 0 ≤ n % 146097 ∧ n % 146097 < 146097 := by omega
  generalize n / 146097 = q at *
  generalize n % 146097 = r at *
  have hc : 0 ≤ min (r / 36524) 3 ∧ min (r / 36524) 3 ≤ 3 := by omega
  have ht : 0 ≤ r - 36524 * min (r / 36524) 3 ∧
      r - 36524 * min (r / 36524) 3 < if min (r / 36524) 3 = 3 then 36525 else 36524 := by
    split_ifs <;> omega
  generalize min (r / 36524) 3 = c at *
  obtain ⟨t, rfl⟩ : ∃ t, r = 36524 * c + t := ⟨r - 36524 * c, by ring⟩
  rw [add_sub_cancel_left] at *
  have hf : 0 ≤ t / 1461 ∧ t / 1461 ≤ 24 := by split_ifs at ht <;> omega
  have hs : 0 ≤ min (t % 1461 / 365) 3 ∧ min (t % 1461 / 365) 3 ≤ 3 := by omega
  rw [daysBeforeYear_cycles q c (t / 1461) _ hc hf hs, daysBeforeYear_cycles_succ q c (t / 1461) _ hc hf hs]
  constructor
  · omega
  · split_ifs at ht ⊢ <;> omega

/-- A day lies in no other year. -/
theorem yearOfDay_eq {n year : Int} (hlow : daysBeforeYear year ≤ n) (hhigh : n < daysBeforeYear (year + 1)) :
    yearOfDay n = year := by
  obtain ⟨hlow', hhigh'⟩ := yearOfDay_bounds n
  have h := daysBeforeYear_strictMono.lt_iff_lt.1 (lt_of_le_of_lt hlow hhigh')
  have h' := daysBeforeYear_strictMono.lt_iff_lt.1 (lt_of_le_of_lt hlow' hhigh)
  omega

/-! ## Months -/

/-- The walk ends in the month that holds the day. -/
theorem walkMonths_eq (month : Int) {lengths : List Int} (offset : Int) (hpos : ∀ l ∈ lengths, 0 ≤ l) {i : Nat}
    (hi : i < lengths.length) (hlow : (lengths.take i).sum ≤ offset) (hhigh : offset < (lengths.take i).sum + lengths[i]) :
    walkMonths month lengths offset = (month + i, offset - (lengths.take i).sum + 1) := by
  induction lengths generalizing month i offset with
  | nil => cases hi
  | cons l rest ih =>
    have hrest : ∀ l ∈ rest, 0 ≤ l := fun l hl => hpos l (List.mem_cons_of_mem _ hl)
    unfold walkMonths
    cases i with
    | zero =>
      simp only [List.take_zero, List.sum_nil, List.getElem_cons_zero, zero_add] at hhigh
      simp [hhigh]
    | succ i =>
      simp only [List.take_succ_cons, List.sum_cons, List.getElem_cons_succ] at hlow hhigh ⊢
      have hnonneg : 0 ≤ (rest.take i).sum := List.sum_nonneg fun l hl => hrest l (List.mem_of_mem_take hl)
      rw [if_neg (by omega), ih _ _ hrest (by simpa using hi) (by omega) (by omega)]
      push_cast
      ring_nf

/-- Every day of a year lies in one of its months. -/
theorem exists_month (lengths : List Int) (offset : Int) (hlow : 0 ≤ offset) (hhigh : offset < lengths.sum) :
    ∃ i, ∃ hi : i < lengths.length, (lengths.take i).sum ≤ offset ∧ offset < (lengths.take i).sum + lengths[i] := by
  induction lengths generalizing offset with
  | nil => simp only [List.sum_nil] at hhigh; omega
  | cons l rest ih =>
    by_cases hfirst : offset < l
    · exact ⟨0, by simp, by simpa using hlow, by simpa using hfirst⟩
    · rw [List.sum_cons] at hhigh
      obtain ⟨i, hi, hlow', hhigh'⟩ := ih (offset - l) (by omega) (by omega)
      refine ⟨i + 1, by simpa using hi, ?_, ?_⟩
      · rw [List.take_succ_cons, List.sum_cons]
        omega
      · rw [List.take_succ_cons, List.sum_cons, List.getElem_cons_succ]
        omega

/-- The lengths of the months are those of the rules, and make up the year. -/
theorem monthLengths_spec (year : Int) :
    (monthLengths (isLeap year)).length = 12 ∧
      (∀ i, ∀ hi : i < (monthLengths (isLeap year)).length, (monthLengths (isLeap year))[i] = daysIn year (1 + i)) ∧
      (monthLengths (isLeap year)).sum = if isLeap year then 366 else 365 := by
  refine ⟨rfl, ?_, ?_⟩
  · intro i hi
    have hi12 : i < 12 := hi
    unfold daysIn
    cases isLeap year <;> interval_cases i <;> rfl
  · cases isLeap year <;> rfl

theorem monthLengths_nonneg (year : Int) : ∀ l ∈ monthLengths (isLeap year), 0 ≤ l := by
  cases isLeap year <;> decide

/-- The days of a year before its month of a number, counted from zero. -/
def daysBeforeMonth (year : Int) (i : Nat) : Int := ((monthLengths (isLeap year)).take i).sum

theorem daysBeforeMonth_zero (year : Int) : daysBeforeMonth year 0 = 0 := rfl

theorem daysBeforeMonth_succ (year : Int) {i : Nat} (hi : i < 12) :
    daysBeforeMonth year (i + 1) = daysBeforeMonth year i + daysIn year (1 + i) := by
  obtain ⟨hlength, hmonth, -⟩ := monthLengths_spec year
  have hi' : i < (monthLengths (isLeap year)).length := hlength ▸ hi
  unfold daysBeforeMonth
  rw [← hmonth i hi', List.sum_take_succ _ i hi']

theorem daysBeforeMonth_year (year : Int) :
    daysBeforeYear year + daysBeforeMonth year 12 = daysBeforeYear (year + 1) := by
  rw [daysBeforeYear_succ, ← (monthLengths_spec year).2.2]
  rfl

theorem daysBeforeMonth_le (year : Int) (i : Nat) : daysBeforeMonth year i ≤ daysBeforeMonth year 12 := by
  have hsplit : daysBeforeMonth year i + ((monthLengths (isLeap year)).drop i).sum = daysBeforeMonth year 12 :=
    List.sum_take_add_sum_drop _ i
  have hdrop : 0 ≤ ((monthLengths (isLeap year)).drop i).sum :=
    List.sum_nonneg fun l hl => monthLengths_nonneg year l (List.mem_of_mem_drop hl)
  omega

/-! ## Dates of days -/

/-- The date of a day that lies in a month. -/
theorem ofEpochDay_eq (n year : Int) {i : Nat} (hi : i < 12)
    (hlow : daysBeforeYear year + daysBeforeMonth year i ≤ n + epochDay)
    (hhigh : n + epochDay < daysBeforeYear year + daysBeforeMonth year (i + 1)) :
    ofEpochDay n = ⟨year, 1 + i, n + epochDay - daysBeforeYear year - daysBeforeMonth year i + 1⟩ := by
  obtain ⟨hlength, hmonth, -⟩ := monthLengths_spec year
  have hi' : i < (monthLengths (isLeap year)).length := hlength ▸ hi
  have hstart : 0 ≤ daysBeforeMonth year i :=
    List.sum_nonneg fun l hl => monthLengths_nonneg year l (List.mem_of_mem_take hl)
  have hend := daysBeforeMonth_le year (i + 1)
  have hnext := daysBeforeMonth_year year
  have hyear : yearOfDay (n + epochDay) = year := yearOfDay_eq (by omega) (by omega)
  rw [daysBeforeMonth_succ year hi, ← hmonth i hi'] at hhigh
  unfold daysBeforeMonth at hlow hhigh ⊢
  have hwalk := walkMonths_eq 1 (n + epochDay - daysBeforeYear year) (monthLengths_nonneg year) hi' (by omega) (by omega)
  unfold ofEpochDay
  simp only [hyear, hwalk]

/-- Every day lies in a month. -/
theorem exists_monthOfDay (n : Int) : ∃ year, ∃ i < 12, daysBeforeYear year + daysBeforeMonth year i ≤ n + epochDay ∧
    n + epochDay < daysBeforeYear year + daysBeforeMonth year (i + 1) := by
  obtain ⟨hlow, hhigh⟩ := yearOfDay_bounds (n + epochDay)
  generalize yearOfDay (n + epochDay) = year at hlow hhigh
  obtain ⟨hlength, hmonth, hsum⟩ := monthLengths_spec year
  rw [daysBeforeYear_succ, ← hsum] at hhigh
  obtain ⟨i, hi, hstart, hend⟩ := exists_month (monthLengths (isLeap year)) (n + epochDay - daysBeforeYear year)
    (by omega) (by omega)
  have hi12 : i < 12 := hlength ▸ hi
  refine ⟨year, i, hi12, ?_, ?_⟩
  · unfold daysBeforeMonth
    omega
  · rw [daysBeforeMonth_succ year hi12, ← hmonth i hi]
    unfold daysBeforeMonth
    omega

end Date

/-! ## The calendar -/

/-- Every date is one of the calendar, day zero is the first of January 1970, and each day is followed by
the next one. -/
structure Gregorian (date : Int → Date) : Prop where
  valid : ∀ n, (date n).Valid
  epoch : date 0 = ⟨1970, 1, 1⟩
  next : ∀ n, date (n + 1) = (date n).next

open Date

theorem gregorian_ofEpochDay : Gregorian ofEpochDay where
  valid n := by
    obtain ⟨year, i, hi, hlow, hhigh⟩ := exists_monthOfDay n
    rw [ofEpochDay_eq n year hi hlow hhigh]
    rw [daysBeforeMonth_succ year hi] at hhigh
    constructor
    · dsimp only
      omega
    · dsimp only
      omega
  epoch := by decide
  next n := by
    obtain ⟨year, i, hi, hlow, hhigh⟩ := exists_monthOfDay n
    rw [ofEpochDay_eq n year hi hlow hhigh]
    have hlength := daysBeforeMonth_succ year hi
    unfold Date.next
    dsimp only
    split_ifs with hday hmonth
    · -- the month goes on
      rw [ofEpochDay_eq (n + 1) year hi (by omega) (by omega)]
      congr 1
      omega
    · -- the first of the next month
      have hi' : i + 1 < 12 := by omega
      have hlength' := daysBeforeMonth_succ year hi'
      have hdays := (daysIn_bounds year (1 + (i + 1 : Nat))).1
      rw [ofEpochDay_eq (n + 1) year hi' (by omega) (by omega)]
      congr 1
      omega
    · -- New Year's Day
      have hlast : i + 1 = 12 := by omega
      rw [hlast] at hlength hhigh
      have hyear := daysBeforeMonth_year year
      have hzero := daysBeforeMonth_zero (year + 1)
      have hlength' := daysBeforeMonth_succ (year + 1) (show 0 < 12 by omega)
      have hdays := (daysIn_bounds (year + 1) (1 + (0 : Nat))).1
      rw [ofEpochDay_eq (n + 1) (year + 1) (show 0 < 12 by omega) (by omega) (by omega)]
      congr 1
      omega

/-- One calendar follows the rules. -/
theorem Gregorian.eq_ofEpochDay {date : Int → Date} (h : Gregorian date) : date = ofEpochDay := by
  funext n
  induction n using Int.induction_on with
  | zero => rw [h.epoch, gregorian_ofEpochDay.epoch]
  | succ n ih => rw [h.next, gregorian_ofEpochDay.next, ih]
  | pred n ih =>
    apply next_injective (h.valid _) (gregorian_ofEpochDay.valid _)
    rw [← h.next, ← gregorian_ofEpochDay.next, sub_add_cancel]
    exact ih

/-! ## Dates as numbers -/

/-- A date as one number, month and day with two digits each. -/
def Date.code (d : Date) : Int := d.year * 10000 + d.month * 100 + d.day

theorem Date.Valid.code_lt_next {d : Date} (h : d.Valid) : d.code < d.next.code := by
  obtain ⟨⟨hm, hm'⟩, hd, hd'⟩ := h
  have := daysIn_bounds d.year d.month
  unfold Date.next Date.code
  split_ifs <;> dsimp only <;> omega

/-- Later days have greater numbers. -/
theorem Gregorian.code_strictMono {date : Int → Date} (h : Gregorian date) : StrictMono fun n => (date n).code := by
  apply strictMono_int_of_lt_succ
  intro n
  rw [h.next]
  exact (h.valid n).code_lt_next

end MetricCascade
