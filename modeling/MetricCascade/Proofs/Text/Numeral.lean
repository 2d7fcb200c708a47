/-
Numerals, and texts that write a number: blanks, a numeral and blanks again. Passing over the blanks at
both ends and reading the rest finds the number in exactly those texts, as long as it is not too large.
-/
import MetricCascade.Text.Blank
import MetricCascade.Text.Numeral
import Mathlib.Data.List.TakeWhile
import Mathlib.Data.Nat.Digits.Defs
import Mathlib.Tactic

namespace MetricCascade.Text

/-- A plus sign or none, and one digit or more behind it. -/
structure Numeral where
  signed : Bool
  /-- The digits, the one of the ones last. -/
  digits : List (Fin 10)
  digits_ne_nil : digits ≠ []

namespace Numeral

/-- The character of a digit. -/
def digit (d : Fin 10) : Char := Nat.digitChar d

/-- The number of a numeral, in positional notation. -/
def value (m : Numeral) : Nat := Nat.ofDigits 10 (m.digits.reverse.map Fin.val)

/-- The characters of a numeral. -/
def spell (m : Numeral) : List Char := (if m.signed then ['+'] else []) ++ m.digits.map digit

end Numeral

/-- A text writes a number: blanks, a numeral of the number, and blanks. -/
def Writes (s : List Char) (n : Nat) : Prop :=
  ∃ front back : List Char, ∃ m : Numeral, s = front ++ m.spell ++ back ∧
    (∀ c ∈ front, isBlank c = true) ∧ (∀ c ∈ back, isBlank c = true) ∧ m.value = n

variable {greatest n k : Nat} {s cs front core back : List Char}

/-! ## Passing over blanks -/

/-- What has no blank is left when the blanks around it go. -/
theorem trim_append (hfront : ∀ c ∈ front, isBlank c = true) (hback : ∀ c ∈ back, isBlank c = true)
    (hcore : ∀ c ∈ core, isBlank c = false) : trim (front ++ core ++ back) = core := by
  rw [trim, List.append_assoc, List.dropWhile_append_of_pos hfront]
  cases core with
  | nil =>
    have hgone : back.dropWhile isBlank = [] := List.dropWhile_eq_nil_iff.2 hback
    rw [List.nil_append, hgone]
    rfl
  | cons c core =>
    have hc : isBlank c = false := hcore c List.mem_cons_self
    have hkept : (c :: core).reverse.dropWhile isBlank = (c :: core).reverse := by
      rw [List.dropWhile_eq_self_iff]
      intro hl
      rw [hcore _ (List.mem_reverse.1 (List.getElem_mem hl))]
      decide
    rw [List.cons_append, List.dropWhile_cons, hc, ← List.cons_append, if_neg (by decide),
      List.reverse_append, List.dropWhile_append_of_pos fun d hd => hback d (List.mem_reverse.1 hd),
      hkept, List.reverse_reverse]

/-- The blanks that go are a front and a back of the text. -/
theorem exists_eq_append_trim (s : List Char) :
    ∃ front back, s = front ++ trim s ++ back ∧ (∀ c ∈ front, isBlank c = true) ∧
      ∀ c ∈ back, isBlank c = true := by
  refine ⟨s.takeWhile isBlank, ((s.dropWhile isBlank).reverse.takeWhile isBlank).reverse, ?_, ?_, ?_⟩
  · rw [trim, List.append_assoc, ← List.reverse_append, List.takeWhile_append_dropWhile,
      List.reverse_reverse, List.takeWhile_append_dropWhile]
  · exact fun c hc => List.mem_takeWhile_imp hc
  · exact fun c hc => List.mem_takeWhile_imp (List.mem_reverse.1 hc)

/-! ## Digits -/

namespace Numeral

theorem toNat_digit (d : Fin 10) : (digit d).toNat = '0'.toNat + d := by
  revert d
  decide

/-- A character that is taken for a digit is one of the ten. -/
theorem exists_digit {c : Char} (h : c.isDigit = true) : ∃ d, digit d = c := by
  obtain ⟨hlow, hhigh⟩ : '0'.toNat ≤ c.toNat ∧ c.toNat ≤ '9'.toNat := by
    simpa [Char.isDigit, UInt32.le_iff_toNat_le] using h
  have hsmall : c.toNat - '0'.toNat < 10 := by
    have : c.toNat ≤ '0'.toNat + 9 := hhigh
    omega
  refine ⟨⟨c.toNat - '0'.toNat, hsmall⟩, Char.toNat_inj.1 ?_⟩
  rw [toNat_digit]
  exact Nat.add_sub_cancel' hlow

/-- Characters that are all taken for digits spell digits. -/
theorem exists_map_digit (h : cs.all Char.isDigit = true) : ∃ ds : List (Fin 10), ds.map digit = cs := by
  induction cs with
  | nil => exact ⟨[], rfl⟩
  | cons c cs ih =>
    rw [List.all_cons, Bool.and_eq_true] at h
    obtain ⟨d, hd⟩ := exists_digit h.1
    obtain ⟨ds, hds⟩ := ih h.2
    exact ⟨d :: ds, by rw [List.map_cons, hd, hds]⟩

theorem isDigit_digit (d : Fin 10) : (digit d).isDigit = true := by
  revert d
  decide

theorem all_isDigit_map (ds : List (Fin 10)) : (ds.map digit).all Char.isDigit = true := by
  rw [List.all_map, List.all_eq_true]
  exact fun d _ => isDigit_digit d

/-- Taking the digits from the left finds their number in positional notation. -/
theorem digitsValue_map (ds : List (Fin 10)) :
    digitsValue (ds.map digit) = Nat.ofDigits 10 (ds.reverse.map Fin.val) := by
  induction ds using List.reverseRecOn with
  | nil => rfl
  | append_singleton ds d ih =>
    have hstep : digitsValue ((ds ++ [d]).map digit) = 10 * digitsValue (ds.map digit) + d := by
      rw [digitsValue, digitsValue, List.map_append, List.foldl_append]
      simp only [List.map_cons, List.map_nil, List.foldl_cons, List.foldl_nil, toNat_digit,
        Nat.add_sub_cancel_left]
    rw [hstep, ih, List.reverse_append, List.reverse_singleton, List.singleton_append, List.map_cons,
      Nat.ofDigits_cons, Nat.add_comm]

/-! ## Reading a numeral -/

theorem isBlank_digit (d : Fin 10) : isBlank (digit d) = false := by
  revert d
  decide

theorem isBlank_spell (m : Numeral) : ∀ c ∈ m.spell, isBlank c = false := by
  intro c hc
  rw [spell, List.mem_append] at hc
  rcases hc with hsign | hdigit
  · have hplus : c = '+' := by
      split at hsign
      · exact List.mem_singleton.1 hsign
      · cases hsign
    rw [hplus]
    decide
  · obtain ⟨d, -, rfl⟩ := List.mem_map.1 hdigit
    exact isBlank_digit d

/-- The sign is passed over, and every digit behind it is read. -/
theorem natural?_spell (greatest : Nat) (m : Numeral) :
    natural? greatest m.spell = if m.value ≤ greatest then some m.value else none := by
  obtain ⟨signed, ds, hne⟩ := m
  obtain ⟨d, ds, rfl⟩ := List.exists_cons_of_ne_nil hne
  have hplus : digit d ≠ '+' := Nat.digitChar_ne '+' rfl
  have hdigits := all_isDigit_map (d :: ds)
  have hvalue := digitsValue_map (d :: ds)
  rw [List.map_cons] at hdigits hvalue
  cases signed with
  | false => simp [natural?, spell, value, hdigits, hvalue, hplus]
  | true => simp [natural?, spell, value, hdigits, hvalue]

/-- What is read is a numeral. -/
theorem exists_spell_of_natural? (h : natural? greatest cs = some n) :
    ∃ m : Numeral, m.spell = cs ∧ m.value = n ∧ n ≤ greatest := by
  obtain ⟨signed, digits, rfl, hread⟩ : ∃ (signed : Bool) (digits : List Char),
      (if signed then ['+'] else []) ++ digits = cs ∧
        (if digits.isEmpty || !digits.all Char.isDigit then none
          else if digitsValue digits ≤ greatest then some (digitsValue digits) else none) = some n := by
    by_cases hplus : ∃ rest, cs = '+' :: rest
    · obtain ⟨rest, rfl⟩ := hplus
      exact ⟨true, rest, rfl, h⟩
    · rw [natural?.eq_2 greatest cs fun rest hrest => hplus ⟨rest, hrest⟩] at h
      exact ⟨false, cs, rfl, h⟩
  split_ifs at hread with hdigits hle
  rw [Bool.not_eq_true, Bool.or_eq_false_iff, Bool.not_eq_false'] at hdigits
  obtain ⟨ds, rfl⟩ := exists_map_digit hdigits.2
  have hne : ds ≠ [] := by
    rintro rfl
    cases hdigits.1
  cases hread
  exact ⟨⟨signed, ds, hne⟩, rfl, (digitsValue_map ds).symm, hle⟩

end Numeral

/-- Without the blanks at its ends, a text reads as a number exactly if it writes that number. -/
theorem natural?_trim_eq_some_iff :
    natural? greatest (trim s) = some n ↔ Writes s n ∧ n ≤ greatest := by
  constructor
  · intro h
    obtain ⟨m, hspell, hvalue, hle⟩ := Numeral.exists_spell_of_natural? h
    obtain ⟨front, back, hs, hfront, hback⟩ := exists_eq_append_trim s
    exact ⟨⟨front, back, m, hspell.symm ▸ hs, hfront, hback, hvalue⟩, hle⟩
  · rintro ⟨⟨front, back, m, rfl, hfront, hback, rfl⟩, hle⟩
    rw [trim_append hfront hback m.isBlank_spell, m.natural?_spell, if_pos hle]

/-- A text writes one number at most. -/
theorem Writes.unique (hn : Writes s n) (hk : Writes s k) : n = k := by
  have hn := natural?_trim_eq_some_iff.2 ⟨hn, le_max_left n k⟩
  have hk := natural?_trim_eq_some_iff.2 ⟨hk, le_max_right n k⟩
  exact Option.some.inj (hn.symm.trans hk)

end MetricCascade.Text
