/-
Reading JSON text, character by character. A scanner cuts the text into tokens, and a builder with
a stack of open lists and objects puts them together. The grammar is strict: no trailing commas, no
leading zeros, no control characters in strings, nothing after the value.
-/
import MetricCascade.Json.Basic
import MetricCascade.Text.Numeral

namespace MetricCascade.Json

/-! ## Numbers -/

/-- Splits off the digits at the front, at least one. -/
def digits? (cs : List Char) : Option (List Char × List Char) :=
  let digits := cs.takeWhile Char.isDigit
  if digits.isEmpty then none else some (digits, cs.dropWhile Char.isDigit)

/-- Splits off a sign. -/
def splitMinus : List Char → Bool × List Char
  | '-' :: rest => (true, rest)
  | cs => (false, cs)

/-- Reads the exponent that may end a number. -/
def exponent? : List Char → Option Int
  | [] => some 0
  | e :: rest =>
    if e = 'e' ∨ e = 'E' then
      let (negative, rest) :=
        match rest with
        | '+' :: more => (false, more)
        | _ => splitMinus rest
      match digits? rest with
      | some (digits, []) =>
        let n : Int := Text.digitsValue digits
        some (if negative then -n else n)
      | _ => none
    else none

/-- An integer that 64 bits hold, signed or unsigned, is an integer; minus zero is not one. -/
def ofWhole (negative : Bool) (n : Nat) : Json :=
  if negative then
    if n = 0 ∨ 9223372036854775808 < n then real (-n) 0 else int (-n)
  else if 18446744073709551615 < n then real n 0 else int n

/-- The number that a literal denotes. -/
def ofNumeral (cs : List Char) : Option Json := do
  let (negative, cs) := splitMinus cs
  let (whole, rest) ← digits? cs
  if whole.length ≠ 1 ∧ whole.head? = some '0' then none else
  match rest with
  | [] => some (ofWhole negative (Text.digitsValue whole))
  | '.' :: rest =>
    let (fraction, rest) ← digits? rest
    let e ← exponent? rest
    let n := Text.digitsValue (whole ++ fraction)
    some (real (if negative then -n else n) (e - fraction.length))
  | rest =>
    let e ← exponent? rest
    let n := Text.digitsValue whole
    some (real (if negative then -n else n) e)

/-! ## Strings -/

/-- The text of a string while it is read. -/
structure Quoted where
  /-- What was read, last character first. -/
  chars : List Char := []
  /-- The first half of a surrogate pair whose second half is to come. -/
  half : Option Nat := none
  /-- No half of a pair stood alone so far. -/
  sound : Bool := true

namespace Quoted

def push (q : Quoted) (c : Char) : Quoted :=
  { chars := c :: q.chars, sound := q.sound && q.half.isNone }

/-- Takes the number of an escape, which may be half of a surrogate pair. -/
def pushUnit (q : Quoted) (unit : Nat) : Quoted :=
  if 0xD800 ≤ unit ∧ unit < 0xDC00 then
    { q with half := some unit, sound := q.sound && q.half.isNone }
  else if 0xDC00 ≤ unit ∧ unit < 0xE000 then
    match q.half with
    | some first =>
      { q with
        chars := Char.ofNat (0x10000 + (first - 0xD800) * 0x400 + (unit - 0xDC00)) :: q.chars
        half := none }
    | none => { q with sound := false }
  else q.push (Char.ofNat unit)

/-- The text, unless half of a pair stands alone in it. -/
def close (q : Quoted) : Option String :=
  if q.sound && q.half.isNone then some (String.ofList q.chars.reverse) else none

end Quoted

/-- The character that a backslash and a letter stand for. -/
def unescape? : Char → Option Char
  | '"' => some '"'
  | '\\' => some '\\'
  | '/' => some '/'
  | 'b' => some '\x08'
  | 'f' => some '\x0c'
  | 'n' => some '\n'
  | 'r' => some '\r'
  | 't' => some '\t'
  | _ => none

def hexDigit? (c : Char) : Option Nat :=
  if c.isDigit then some (c.toNat - '0'.toNat)
  else if 'a' ≤ c ∧ c ≤ 'f' then some (c.toNat - 'a'.toNat + 10)
  else if 'A' ≤ c ∧ c ≤ 'F' then some (c.toNat - 'A'.toNat + 10)
  else none

/-! ## Values from tokens -/

inductive Token where
  | openList
  | closeList
  | openObject
  | closeObject
  | comma
  | colon
  /-- A string; without a text if half of a surrogate pair stands alone in it. -/
  | quoted (text : Option String)
  | value (value : Json)

/-- A list or an object that is not closed yet, its parts last first. -/
inductive Frame where
  | list (items : List Json)
  | object (fields : List (Option String × Json))
  /-- An object whose next field has a name but no value yet. -/
  | field (fields : List (Option String × Json)) (name : Option String)

/-- What may come next. -/
inductive Need where
  | value
  | valueOrClose
  | name
  | nameOrClose
  | colon
  | commaOrClose
  | nothing

structure Builder where
  frames : List Frame := []
  need : Need := .value
  result : Option Json := none

namespace Builder

/-- Puts a finished value where it belongs. -/
def place (b : Builder) (v : Json) : Option Builder :=
  match b.frames with
  | [] => some { frames := [], need := .nothing, result := some v }
  | .list items :: rest => some { b with frames := .list (v :: items) :: rest, need := .commaOrClose }
  | .field fields name :: rest =>
    some { b with frames := .object ((name, v) :: fields) :: rest, need := .commaOrClose }
  | .object _ :: _ => none

/-- An object of the fields read, if all their names are readable. -/
def objectOf (fields : List (Option String × Json)) : Json :=
  match fields.reverse.mapM (fun f => f.1.map (·, f.2)) with
  | some named => object named
  | none => unreadable

def takeValue (b : Builder) (v : Json) : Option Builder :=
  match b.need with
  | .value | .valueOrClose => b.place v
  | _ => none

def takeText (b : Builder) (s : Option String) : Option Builder :=
  match b.need, b.frames with
  | .name, .object fields :: rest | .nameOrClose, .object fields :: rest =>
    some { b with frames := .field fields s :: rest, need := .colon }
  | _, _ => b.takeValue (s.elim unreadable text)

def openFrame (b : Builder) (f : Frame) (need : Need) : Option Builder :=
  match b.need with
  | .value | .valueOrClose => some { b with frames := f :: b.frames, need }
  | _ => none

def closeList (b : Builder) : Option Builder :=
  match b.need, b.frames with
  | .valueOrClose, .list items :: rest | .commaOrClose, .list items :: rest =>
    { b with frames := rest }.place (list items.reverse)
  | _, _ => none

def closeObject (b : Builder) : Option Builder :=
  match b.need, b.frames with
  | .nameOrClose, .object fields :: rest | .commaOrClose, .object fields :: rest =>
    { b with frames := rest }.place (objectOf fields)
  | _, _ => none

def takeComma (b : Builder) : Option Builder :=
  match b.need, b.frames with
  | .commaOrClose, .list _ :: _ => some { b with need := .value }
  | .commaOrClose, .object _ :: _ => some { b with need := .name }
  | _, _ => none

def takeColon (b : Builder) : Option Builder :=
  match b.need with
  | .colon => some { b with need := .value }
  | _ => none

def take (b : Builder) : Token → Option Builder
  | .openList => b.openFrame (.list []) .valueOrClose
  | .closeList => b.closeList
  | .openObject => b.openFrame (.object []) .nameOrClose
  | .closeObject => b.closeObject
  | .comma => b.takeComma
  | .colon => b.takeColon
  | .quoted s => b.takeText s
  | .value v => b.takeValue v

end Builder

/-! ## Tokens from characters -/

/-- Where in an escape a string is. -/
inductive Escape where
  | outside
  | backslash
  /-- `left` hexadecimal digits are to come. -/
  | hex (left value : Nat)

/-- The token that is being read. -/
inductive Mode where
  | between
  | quoted (q : Quoted) (e : Escape)
  /-- The characters of a number, last first. -/
  | number (chars : List Char)
  /-- The letters of a word, last first. -/
  | word (letters : List Char)

structure Scanner where
  mode : Mode := .between
  builder : Builder := {}

namespace Scanner

def isBlank (c : Char) : Bool := c = ' ' || c = '\n' || c = '\r' || c = '\t'

def isNumeral (c : Char) : Bool :=
  c.isDigit || c = '-' || c = '+' || c = '.' || c = 'e' || c = 'E'

def punctuation? : Char → Option Token
  | '[' => some .openList
  | ']' => some .closeList
  | '\x7b' => some .openObject
  | '\x7d' => some .closeObject
  | ',' => some .comma
  | ':' => some .colon
  | _ => none

def word? (letters : List Char) : Option Json :=
  match String.ofList letters.reverse with
  | "null" => some null
  | "true" => some (bool true)
  | "false" => some (bool false)
  | _ => none

/-- Ends the number or word that is being read. A string cannot end here. -/
def finishToken (s : Scanner) : Option Builder :=
  match s.mode with
  | .between => some s.builder
  | .quoted _ _ => none
  | .number chars => (ofNumeral chars.reverse).bind s.builder.takeValue
  | .word letters => (word? letters).bind s.builder.takeValue

/-- Starts a token. -/
def start (b : Builder) (c : Char) : Option Scanner :=
  if isBlank c then some { builder := b }
  else if c = '"' then some { mode := .quoted {} .outside, builder := b }
  else if c.isDigit || c = '-' then some { mode := .number [c], builder := b }
  else if c.isAlpha then some { mode := .word [c], builder := b }
  else (punctuation? c).bind fun t => (b.take t).map fun b => { builder := b }

def stepQuoted (b : Builder) (q : Quoted) (e : Escape) (c : Char) : Option Scanner :=
  match e with
  | .outside =>
    if c = '"' then (b.take (.quoted q.close)).map fun b => { builder := b }
    else if c = '\\' then some { mode := .quoted q .backslash, builder := b }
    else if c.toNat < 0x20 then none
    else some { mode := .quoted (q.push c) .outside, builder := b }
  | .backslash =>
    if c = 'u' then some { mode := .quoted q (.hex 4 0), builder := b }
    else (unescape? c).map fun c => { mode := .quoted (q.push c) .outside, builder := b }
  | .hex left value =>
    (hexDigit? c).map fun d =>
      if left ≤ 1 then { mode := .quoted (q.pushUnit (16 * value + d)) .outside, builder := b }
      else { mode := .quoted q (.hex (left - 1) (16 * value + d)), builder := b }

def step (s : Scanner) (c : Char) : Option Scanner :=
  match s.mode with
  | .between => start s.builder c
  | .quoted q e => stepQuoted s.builder q e c
  | .number chars =>
    if isNumeral c then some { s with mode := .number (c :: chars) }
    else s.finishToken.bind fun b => start b c
  | .word letters =>
    if c.isAlpha then some { s with mode := .word (c :: letters) }
    else s.finishToken.bind fun b => start b c

end Scanner

/-- The value that a text denotes, if it is one JSON value and nothing else. -/
def ofText? (s : String) : Option Json := do
  let scanner ← s.toList.foldlM Scanner.step {}
  let b ← scanner.finishToken
  b.result

end MetricCascade.Json
