/-
Writing JSON text, without blanks. Quotes, backslashes and control characters are escaped.
-/
import MetricCascade.Json.Basic

namespace MetricCascade.Json

def hexDigit (n : Nat) : Char := if n < 10 then Char.ofNat (48 + n) else Char.ofNat (87 + n)

/-- Appends a character as it stands inside a string literal. -/
def pushEscaped (out : String) (c : Char) : String :=
  if c = '"' then out ++ "\\\""
  else if c = '\\' then out ++ "\\\\"
  else if c.toNat < 0x20 then
    ((out ++ "\\u00").push (hexDigit (c.toNat / 16))).push (hexDigit (c.toNat % 16))
  else out.push c

def pushQuoted (out s : String) : String := (s.foldl pushEscaped (out.push '"')).push '"'

mutual

/-- Appends the text of a value. -/
def pushTo (out : String) : Json → String
  | null => out ++ "null"
  | bool true => out ++ "true"
  | bool false => out ++ "false"
  | int n => out ++ toString n
  | real m e => out ++ toString m ++ "e" ++ toString e
  | text s => pushQuoted out s
  | list items => (pushItems (out.push '[') true items).push ']'
  | object fields => (pushFields (out.push '\x7b') true fields).push '\x7d'
  | unreadable => out ++ "null"

/-- Appends the items of a list, with a comma before each but the first. -/
def pushItems (out : String) (first : Bool) : List Json → String
  | [] => out
  | v :: rest => pushItems (pushTo (if first then out else out.push ',') v) false rest

/-- Appends the fields of an object, with a comma before each but the first. -/
def pushFields (out : String) (first : Bool) : List (String × Json) → String
  | [] => out
  | (name, v) :: rest =>
    pushFields (pushTo ((pushQuoted (if first then out else out.push ',') name).push ':') v) false rest

end

def render (v : Json) : String := pushTo "" v

end MetricCascade.Json
