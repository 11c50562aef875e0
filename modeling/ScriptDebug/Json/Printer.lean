import ScriptDebug.Decimal.Shortest
import ScriptDebug.Json.Basic
import ScriptDebug.Text.Quoted

/-!
# JSON text

The compact text of a JSON value: no blanks, members in the order they have.
-/

namespace ScriptDebug.Json

/-- One character of a string: quote, backslash and controls are escaped. -/
def escapeChar (c : Char) : List Char :=
  if c = '"' then ['\\', '"']
  else if c = '\\' then ['\\', '\\']
  else if c = '\n' then ['\\', 'n']
  else if c = '\r' then ['\\', 'r']
  else if c = '\t' then ['\\', 't']
  else if c = '\x08' then ['\\', 'b']
  else if c = '\x0c' then ['\\', 'f']
  else if c.toNat < 0x20 then
    ['\\', 'u', '0', '0', Text.hexDigit (c.toNat / 16), Text.hexDigit (c.toNat % 16)]
  else [c]

/-- A string between quotes. -/
def stringChars (s : String) : List Char :=
  '"' :: s.toList.flatMap escapeChar ++ ['"']

/-- A double: positional notation while the leading digit stands between `10⁻⁵` and `10¹⁵`. -/
def floatChars (x : Float) : List Char :=
  let d := Decimal.shortest x
  Decimal.signed x (if -5 ≤ d.exponent && d.exponent < 16 then d.positional else d.scientific)

/-- A number. -/
def Number.chars : Number → List Char
  | .integer n => (toString n).toList
  | .float x => if x.isFinite then floatChars x else "null".toList

mutual

/-- The characters of a value. -/
def chars : Json → List Char
  | .null => "null".toList
  | .boolean true => "true".toList
  | .boolean false => "false".toList
  | .number n => n.chars
  | .string s => stringChars s
  | .array items => '[' :: itemChars items ++ [']']
  | .object members => '\x7b' :: memberChars members ++ ['\x7d']

/-- The characters of the items of an array, separated by commas. -/
def itemChars : List Json → List Char
  | [] => []
  | [item] => chars item
  | item :: rest => chars item ++ ',' :: itemChars rest

/-- The characters of the members of an object, separated by commas. -/
def memberChars : List (String × Json) → List Char
  | [] => []
  | [(k, v)] => stringChars k ++ ':' :: chars v
  | (k, v) :: rest => stringChars k ++ ':' :: chars v ++ ',' :: memberChars rest

end

/-- **Compact text** of a JSON value. -/
def text (j : Json) : String := String.ofList j.chars

end ScriptDebug.Json
