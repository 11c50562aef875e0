import ScriptDebug.Decimal.Nearest
import ScriptDebug.Json.Basic

/-!
# Reading JSON text

A reader over the bytes of a text that knows the line and column it has reached. A fault is a cause
and a position: of the bytes read so far, or of the byte that was looked at.

* numbers: an integer that fits keeps its kind; any other number is a double, its first digits that
  fit a 64-bit word scaled by one power of ten;
* objects: members in ascending key order, the last of equal keys;
* nesting: at most 127 arrays and objects inside each other.

Readers that go on and on take fuel. It starts at more than twice the bytes of the text: a value and
what it is an item of use up one each, and both together take a byte at least.
-/

namespace ScriptDebug.Json

/-- Why a text is not JSON. -/
inductive Fault where
  | endInValue | endInObject | endInArray | endInString
  | expectedValue | expectedWord | expectedColon | expectedObjectEnd | expectedArrayEnd
  | keyNotString | trailingComma | trailingCharacters
  | invalidNumber | numberOutOfRange
  | invalidEscape | unfinishedSurrogate | loneSurrogate | controlCharacter
  | tooDeep
  deriving DecidableEq, Repr

/-- The wording of a fault. -/
def Fault.message : Fault → String
  | .endInValue => "EOF while parsing a value"
  | .endInObject => "EOF while parsing an object"
  | .endInArray => "EOF while parsing a list"
  | .endInString => "EOF while parsing a string"
  | .expectedValue => "expected value"
  | .expectedWord => "expected ident"
  | .expectedColon => "expected `:`"
  | .expectedObjectEnd => "expected `,` or `\x7d`"
  | .expectedArrayEnd => "expected `,` or `]`"
  | .keyNotString => "key must be a string"
  | .trailingComma => "trailing comma"
  | .trailingCharacters => "trailing characters"
  | .invalidNumber => "invalid number"
  | .numberOutOfRange => "number out of range"
  | .invalidEscape => "invalid escape"
  | .unfinishedSurrogate => "unexpected end of hex escape"
  | .loneSurrogate => "lone leading surrogate in hex escape"
  | .controlCharacter => "control character (\\u0000-\\u001F) found while parsing a string"
  | .tooDeep => "recursion limit exceeded"

/-- A fault at a line, counted from one, and a column, the number of bytes of that line read. -/
structure ReadError where
  fault : Fault
  line : Nat
  column : Nat
  deriving DecidableEq, Repr

/-- The wording of a fault with its position. -/
def ReadError.message (e : ReadError) : String :=
  s!"{e.fault.message} at line {e.line} column {e.column}"

/-- How far a text is read. -/
structure Cursor where
  rest : List UInt8
  line : Nat
  column : Nat

/-- A cursor before the first byte. -/
def Cursor.start (bytes : List UInt8) : Cursor := ⟨bytes, 1, 0⟩

/-- Read one byte. -/
def Cursor.next (c : Cursor) : Cursor :=
  match c.rest with
  | [] => c
  | b :: rest => if b = 10 then ⟨rest, c.line + 1, 0⟩ else ⟨rest, c.line, c.column + 1⟩

/-- A reader moves a cursor or stops at a fault. -/
abbrev Reader := StateT Cursor (Except ReadError)

namespace Reader

/-- The byte that comes next. -/
def peek : Reader (Option UInt8) := do return (← get).rest.head?

/-- Read one byte. -/
def advance : Reader Unit := modify Cursor.next

/-- Read `n` bytes. -/
def advanceBy : Nat → Reader Unit
  | 0 => pure ()
  | n + 1 => do advance; advanceBy n

/-- Stop at the bytes read so far. -/
def fail (fault : Fault) : Reader α := do
  let c ← get
  throw ⟨fault, c.line, c.column⟩

/-- Stop at the byte that was looked at. -/
def failNext (fault : Fault) : Reader α := do
  let c := (← get).next
  throw ⟨fault, c.line, c.column⟩

/-- The cursor behind spaces, tabs and line ends. -/
def behindBlanks (line column : Nat) : List UInt8 → Cursor
  | [] => ⟨[], line, column⟩
  | b :: rest =>
    if b = 10 then behindBlanks (line + 1) 0 rest
    else if b = 32 ∨ b = 9 ∨ b = 13 then behindBlanks line (column + 1) rest
    else ⟨b :: rest, line, column⟩

/-- Skip blanks and look at the next byte. -/
def peekToken : Reader (Option UInt8) := do
  modify fun c => behindBlanks c.line c.column c.rest
  peek

/-- Read the given letters. -/
def letters : List UInt8 → Reader Unit
  | [] => pure ()
  | b :: rest => do
    match ← peek with
    | none => fail .endInValue
    | some got => if got = b then do advance; letters rest else failNext .expectedWord

/-! ## Numbers -/

/-- A decimal digit. -/
def isDigit (b : UInt8) : Bool := 48 ≤ b && b ≤ 57

/-- Read all digits that follow. -/
def digits : Reader (List Nat) := do
  let ds := (← get).rest.takeWhile isDigit
  advanceBy ds.length
  return ds.map fun b => b.toNat - 48

/-- Append digits to a number while it stays below `2⁶⁴`; the number and how many were taken. -/
def accumulate (n taken : Nat) : List Nat → Nat × Nat
  | [] => (n, taken)
  | d :: ds =>
    if 10 * n + d < 0x10000000000000000 then accumulate (10 * n + d) (taken + 1) ds else (n, taken)

/-- Divide by `10³⁰⁸` until the rest of a negative exponent is a table entry or nothing is left. -/
def scaleDown (x : Float) (exponent : Int) : Nat → Float
  | 0 => x
  | fuel + 1 =>
    if -308 ≤ exponent then x / Decimal.toFloat 1 (-exponent)
    else if x == 0 then x
    else scaleDown (x / Decimal.toFloat 1 308) (exponent + 308) fuel

/-- A 64-bit number times a power of ten, as a double; `none` beyond the largest one. -/
def scale (n : Nat) (exponent : Int) : Option Float :=
  let x := n.toUInt64.toFloat
  if exponent < 0 then some (scaleDown x exponent 4)
  else if 308 < exponent then if n = 0 then some x else none
  else
    let y := x * Decimal.toFloat 1 exponent
    if y.isInf then none else some y

/-- The double of a number read in parts. -/
def double (negative : Bool) (n : Nat) (exponent : Int) : Reader Json.Number := do
  match scale n exponent with
  | none => fail .numberOutOfRange
  | some x => return .float (if negative then -x else x)

/-- The number of leading digits after which an exponent no longer fits 32 bits. -/
def exponentLength (n count : Nat) : List Nat → Option Nat
  | [] => none
  | d :: ds =>
    if 10 * n + d < 0x80000000 then exponentLength (10 * n + d) (count + 1) ds else some (count + 1)

/-- Read the exponent, behind its `e`, of a number whose point is already moved by `shift`. -/
def exponentPart (negative : Bool) (n : Nat) (shift : Int) : Reader Json.Number := do
  advance
  let down ← match ← peek with
    | some 43 => do advance; pure false
    | some 45 => do advance; pure true
    | _ => pure false
  match ← peek with
  | none => fail .endInValue
  | some b => if !isDigit b then failNext .invalidNumber
  let all := ((← get).rest.takeWhile isDigit).map fun b => b.toNat - 48
  match exponentLength 0 0 all with
  | some count =>
    advanceBy count
    if n ≠ 0 && !down then fail .numberOutOfRange
    let _ ← digits
    return .float (if negative then -0.0 else 0.0)
  | none =>
    let ds ← digits
    let e : Nat := ds.foldl (fun e d => 10 * e + d) 0
    double negative n (if down then shift - (e : Int) else shift + (e : Int))

/-- Read what follows the digits before the point. -/
def fractionPart (negative : Bool) (n : Nat) (shift : Int) : Reader Json.Number := do
  advance
  let ds ← digits
  if ds.isEmpty then
    match ← peek with
    | none => failNext .endInValue
    | some _ => failNext .invalidNumber
  let (n, taken) := accumulate n 0 ds
  match ← peek with
  | some 101 | some 69 => exponentPart negative n (shift - taken)
  | _ => double negative n (shift - taken)

/-- Read a number, behind its sign. -/
def number (negative : Bool) : Reader Json.Number := do
  match ← peek with
  | none => fail .endInValue
  | some b => if !isDigit b then failNext .invalidNumber
  let first ← peek
  let ds ← if first = some 48 then do
      advance
      match ← peek with
      | some b => if isDigit b then failNext .invalidNumber
      | none => pure ()
      pure [0]
    else digits
  let (n, taken) := accumulate 0 0 ds
  let shift : Int := ds.length - taken
  match ← peek with
  | some 46 => fractionPart negative n shift
  | some 101 | some 69 => exponentPart negative n shift
  | _ =>
    if 0 < shift then double negative n shift
    else if !negative then return .integer n
    else if n = 0 || 0x8000000000000000 < n then return .float (-(n.toUInt64.toFloat))
    else return .integer (-n)

/-! ## Strings -/

/-- The value of a hexadecimal digit. -/
def hexValue? (b : UInt8) : Option Nat :=
  if isDigit b then some (b.toNat - 48)
  else if 97 ≤ b && b ≤ 102 then some (b.toNat - 87)
  else if 65 ≤ b && b ≤ 70 then some (b.toNat - 55)
  else none

/-- Read the four digits of an escape. -/
def hexEscape : Reader Nat := do
  let four := (← get).rest.take 4
  advanceBy four.length
  if four.length < 4 then fail .endInString
  match four.mapM hexValue? with
  | some ds => return ds.foldl (fun n d => 16 * n + d) 0
  | none => fail .invalidEscape

/-- The bytes of a code point. -/
def encode (n : Nat) : List UInt8 :=
  (String.ofList [Char.ofNat n]).toUTF8.toList

/-- Read a byte that has to follow a leading surrogate. -/
def surrogateMark (b : UInt8) : Reader Unit := do
  match ← peek with
  | none => fail .endInString
  | some got => if got = b then advance else failNext .unfinishedSurrogate

/-- Read a code point escape, behind its `u`. -/
def codePoint : Reader Nat := do
  let n ← hexEscape
  if 0xDC00 ≤ n && n ≤ 0xDFFF then fail .loneSurrogate
  if n < 0xD800 || 0xDBFF < n then return n
  surrogateMark 92
  surrogateMark 117
  let low ← hexEscape
  if low < 0xDC00 || 0xDFFF < low then fail .loneSurrogate
  return (n - 0xD800) * 0x400 + (low - 0xDC00) + 0x10000

/-- Read the rest of an escape, behind its backslash. -/
def escape : Reader (List UInt8) := do
  match ← peek with
  | none => fail .endInString
  | some b =>
    match b with
    | 34 => do advance; return [34]
    | 92 => do advance; return [92]
    | 47 => do advance; return [47]
    | 98 => do advance; return [8]
    | 102 => do advance; return [12]
    | 110 => do advance; return [10]
    | 114 => do advance; return [13]
    | 116 => do advance; return [9]
    | 117 => do advance; return encode (← codePoint)
    | _ => failNext .invalidEscape

/-- Read the rest of a string, behind its quote, with its bytes so far back to front. -/
def stringBytes (bytes : List UInt8) : Nat → Reader (List UInt8)
  | 0 => fail .endInString
  | fuel + 1 => do
    match ← peek with
    | none => fail .endInString
    | some b =>
      if b = 34 then do
        advance
        return bytes.reverse
      else if b = 92 then do
        advance
        let escaped ← escape
        stringBytes (escaped.reverse ++ bytes) fuel
      else if b < 32 then failNext .controlCharacter
      else do
        advance
        stringBytes (b :: bytes) fuel

/-- Read a string, behind its quote. -/
def string (fuel : Nat) : Reader String := do
  let bytes ← stringBytes [] fuel
  return (String.fromUTF8? ⟨bytes.toArray⟩).getD ""

/-! ## Values -/

/-- Read the colon between a key and its value. -/
def colon : Reader Unit := do
  match ← peekToken with
  | some 58 => advance
  | some _ => failNext .expectedColon
  | none => failNext .endInObject

mutual

/-- Read a value with at most `depth` levels of nesting left. -/
def value (depth : Nat) : Nat → Reader Json
  | 0 => fail .tooDeep
  | fuel + 1 => do
    match ← peekToken with
    | none => failNext .endInValue
    | some b =>
      if b = 110 then do advance; letters "ull".toUTF8.toList; return .null
      else if b = 116 then do advance; letters "rue".toUTF8.toList; return .boolean true
      else if b = 102 then do advance; letters "alse".toUTF8.toList; return .boolean false
      else if b = 45 then do advance; return .number (← number true)
      else if isDigit b then return .number (← number false)
      else if b = 34 then do advance; return .string (← string fuel)
      else if b = 91 then
        if depth ≤ 1 then failNext .tooDeep
        else do advance; return .array (← items true (depth - 1) fuel)
      else if b = 123 then
        if depth ≤ 1 then failNext .tooDeep
        else do advance; return .object (sortMembers (← members true (depth - 1) fuel))
      else failNext .expectedValue

/-- Read the items of an array up to its end. -/
def items (first : Bool) (depth : Nat) : Nat → Reader (List Json)
  | 0 => fail .tooDeep
  | fuel + 1 => do
    match ← peekToken with
    | none => failNext .endInArray
    | some 93 => do advance; return []
    | some b =>
      if !first then
        if b ≠ 44 then failNext .expectedArrayEnd
        advance
        match ← peekToken with
        | some 93 => failNext .trailingComma
        | some _ => pure ()
        | none => failNext .endInValue
      let item ← value depth fuel
      return item :: (← items false depth fuel)

/-- Read the members of an object up to its end. -/
def members (first : Bool) (depth : Nat) : Nat → Reader (List (String × Json))
  | 0 => fail .tooDeep
  | fuel + 1 => do
    match ← peekToken with
    | none => failNext .endInObject
    | some 125 => do advance; return []
    | some b =>
      if first then
        if b ≠ 34 then failNext .keyNotString
      else
        if b ≠ 44 then failNext .expectedObjectEnd
        advance
        match ← peekToken with
        | some 34 => pure ()
        | some 125 => failNext .trailingComma
        | some _ => failNext .keyNotString
        | none => failNext .endInValue
      advance
      let key ← string fuel
      colon
      let item ← value depth fuel
      return (key, item) :: (← members false depth fuel)

end

/-- Read a whole text. -/
def document : Reader Json := do
  let j ← value 128 (2 * (← get).rest.length + 2)
  match ← peekToken with
  | none => return j
  | some _ => failNext .trailingCharacters

end Reader

/-- **Read a JSON text.** -/
def parse (s : String) : Except ReadError Json :=
  Reader.document.run' (Cursor.start s.toUTF8.toList)

end ScriptDebug.Json
