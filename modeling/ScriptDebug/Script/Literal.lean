import ScriptDebug.Decimal.Nearest
import ScriptDebug.Script.Value
import ScriptDebug.Text.Lines
import ScriptDebug.Text.Numeral

/-!
# Literals and names

The literals of the script language, which expressions and script files share: `nil`, `true` and
`false`, texts between equal quotes, and numbers. A text keeps whatever stands between its first and
its last character, quotes included.
-/

namespace ScriptDebug.Script

/-- A decimal digit. -/
def isDigit (c : Char) : Bool := '0' ≤ c && c ≤ '9'

/-- A letter of a name. -/
def isNameStart (c : Char) : Bool := ('a' ≤ c && c ≤ 'z') || ('A' ≤ c && c ≤ 'Z') || c == '_'

/-- **Name.** A letter or `_`, then letters, digits and `_`. -/
def isName : List Char → Bool
  | [] => false
  | c :: cs => isNameStart c && cs.all fun c => isNameStart c || isDigit c

/-- The characters between two equal quotes at the two ends. -/
def unquote? (quote : Char) : List Char → Option (List Char)
  | [] => none
  | c :: rest => if c = quote ∧ rest.getLast? = some quote then some rest.dropLast else none

/-! ## Numbers -/

/-- The exponent behind the digits of a number: nothing, or `e`, perhaps a sign, and digits. -/
def exponent? : List Char → Option Int
  | [] => some 0
  | e :: '+' :: cs => if e = 'e' ∨ e = 'E' then (Text.ofExponent? cs).map (↑·) else none
  | e :: '-' :: cs => if e = 'e' ∨ e = 'E' then (Text.ofExponent? cs).map (-↑·) else none
  | e :: cs => if e = 'e' ∨ e = 'E' then (Text.ofExponent? cs).map (↑·) else none

/-- The number that digits denote, with a point among them or at either end, and an exponent. -/
def decimal? (cs : List Char) : Option Float :=
  let whole := cs.takeWhile isDigit
  let rest := cs.dropWhile isDigit
  let (fraction, rest) := match rest with
    | '.' :: rest => (rest.takeWhile isDigit, rest.dropWhile isDigit)
    | rest => ([], rest)
  match Text.ofDigits? 10 (whole ++ fraction), exponent? rest with
  | some n, some e => some (Decimal.toFloat n (e - fraction.length))
  | _, _ => none

/-- The number that a text without a sign denotes;
infinity and not-a-number have words, in any case. -/
def unsigned? (cs : List Char) : Option Float :=
  match String.ofList (cs.map Char.toLower) with
  | "inf" => some (1.0 / 0.0)
  | "infinity" => some (1.0 / 0.0)
  | "nan" => some (0.0 / 0.0)
  | _ => decimal? cs

/-- **Number.** It starts with a digit, a point or a minus sign. -/
def number? : List Char → Option Float
  | '-' :: cs => (unsigned? cs).map (-·)
  | c :: cs => if isDigit c || c == '.' then decimal? (c :: cs) else none
  | [] => none

/-! ## Literals -/

/-- **Literal.** -/
def literal? (cs : List Char) : Option Value :=
  match String.ofList cs with
  | "nil" => some .nil
  | "true" => some (.boolean true)
  | "false" => some (.boolean false)
  | _ =>
    match unquote? '"' cs with
    | some inner => some (.text (String.ofList inner))
    | none =>
      match unquote? '\'' cs with
      | some inner => some (.text (String.ofList inner))
      | none => (number? cs).map .number

end ScriptDebug.Script
