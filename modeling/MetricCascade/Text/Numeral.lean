/-
Decimal numerals.
-/
namespace MetricCascade.Text

/-- The value of decimal digits. -/
def digitsValue (digits : List Char) : Nat :=
  digits.foldl (fun n c => 10 * n + (c.toNat - '0'.toNat)) 0

/-- Reads one digit or more, which a plus sign may precede, as a number up to `greatest`. Only the
digits from `0` to `9` are read. -/
def natural? (greatest : Nat) (cs : List Char) : Option Nat :=
  let digits := match cs with
    | '+' :: rest => rest
    | _ => cs
  if digits.isEmpty || !digits.all Char.isDigit then none
  else if digitsValue digits ≤ greatest then some (digitsValue digits)
  else none

end MetricCascade.Text
