import ScriptDebug.Text.Shown

/-!
# Quoted text in messages

A text inside a message stands between double quotes; quotes, backslashes and characters without a
visible form are written as escapes, so that the reader sees every character.
-/

namespace ScriptDebug.Text

/-- One hexadecimal digit, in lower case. -/
def hexDigit (n : Nat) : Char :=
  if n < 10 then Char.ofNat (48 + n) else Char.ofNat (87 + n)

/-- The hexadecimal digits of a number, without leading zeros. -/
def hexChars (n : Nat) : List Char :=
  if n < 16 then [hexDigit n] else hexChars (n / 16) ++ [hexDigit (n % 16)]

/-- One character of a quoted text. -/
def quoteChar (c : Char) : List Char :=
  if c = '"' then ['\\', '"']
  else if c = '\\' then ['\\', '\\']
  else if c = '\n' then ['\\', 'n']
  else if c = '\r' then ['\\', 'r']
  else if c = '\t' then ['\\', 't']
  else if c = '\x00' then ['\\', '0']
  else if 0x20 ≤ c.toNat && c.toNat < 0x7F || isShown c then [c]
  else ['\\', 'u', '\x7b'] ++ hexChars c.toNat ++ ['\x7d']

/-- A text between double quotes, with escapes. -/
def quoted (s : String) : String :=
  String.ofList ('"' :: s.toList.flatMap quoteChar ++ ['"'])

/-- A number in hexadecimal behind `0x`. -/
def hexToken (n : Nat) : String :=
  String.ofList ('0' :: 'x' :: hexChars n)

end ScriptDebug.Text
