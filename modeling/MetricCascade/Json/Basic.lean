/-
JSON values. Integers are kept apart from numbers with a fraction or an exponent, and the fields of
an object keep their order and their repetitions.
-/
namespace MetricCascade

inductive Json where
  | null
  | bool (value : Bool)
  | int (value : Int)
  /-- The number `mantissa * 10 ^ exponent`, written with a fraction or an exponent or too large for
  64 bits. -/
  | real (mantissa exponent : Int)
  | text (value : String)
  | list (items : List Json)
  | object (fields : List (String × Json))
  /-- Well-formed text without a value: a string with half of a surrogate pair, or an object with
  such a name. -/
  | unreadable
  deriving Inhabited

namespace Json

def text? : Json → Option String
  | text s => some s
  | _ => none

def bool? : Json → Option Bool
  | bool b => some b
  | _ => none

/-- The integer, if it lies between the bounds. -/
def intWithin? (least greatest : Int) : Json → Option Int
  | int n => if least ≤ n ∧ n ≤ greatest then some n else none
  | _ => none

def items? : Json → Option (List Json)
  | list l => some l
  | _ => none

def fields? : Json → Option (List (String × Json))
  | object l => some l
  | _ => none

/-- The values of all fields of one name, in order. -/
def valuesOf (name : String) (fields : List (String × Json)) : List Json :=
  (fields.filter (fun f => f.1 == name)).map (·.2)

/-- The value of a field; of repeated fields the last counts. -/
def field? (name : String) (fields : List (String × Json)) : Option Json :=
  (valuesOf name fields).getLast?

end Json

end MetricCascade
