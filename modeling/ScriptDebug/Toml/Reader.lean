import ScriptDebug.Decimal.Nearest
import ScriptDebug.Text.Numeral
import ScriptDebug.Toml.Basic

/-!
# Reading configuration text

The grammar of TOML 1.0, as readers that take characters off a text or fail. A text that starts with
a byte order mark is read behind it. Readers that go on and on take fuel, which is more than the
characters that are left: `document` starts with one for each character, and some for the levels of
nesting, as each of them uses up one more.

* words, numbers, dates and times, strings;
* `value`, `items`, `pairs`: values, and those nested in arrays and inline tables;
* `lines`: key lines and headers, each adding to the document.
-/

namespace ScriptDebug.Toml

/-- A reader takes characters off a text, or fails. -/
abbrev Reader := StateT (List Char) Option

namespace Reader

/-- The character that comes next. -/
def peek : Reader (Option Char) := do return (← get).head?

/-- Take one character that passes a test. -/
def one (p : Char → Bool) : Reader Char := do
  match ← get with
  | c :: rest => if p c then do set rest; return c else failure
  | [] => failure

/-- Take the given characters. -/
def exactly (cs : List Char) : Reader Unit := do
  let text ← get
  if cs.isPrefixOf text then set (text.drop cs.length) else failure

/-- Take all characters up to the first one that fails a test. -/
def whilst (p : Char → Bool) : Reader (List Char) := do
  let text ← get
  set (text.dropWhile p)
  return text.takeWhile p

/-- Take the given characters if they come next. -/
def optionally (cs : List Char) : Reader Bool := do
  if cs.isPrefixOf (← get) then do exactly cs; return true else return false

/-- Read `n` times. -/
def times (r : Reader α) : Nat → Reader (List α)
  | 0 => return []
  | n + 1 => do return (← r) :: (← times r n)

/-! ## Blanks, comments and line ends -/

/-- A space or tab. -/
def isBlank (c : Char) : Bool := c == ' ' || c == '\t'

/-- A character that may stand in a comment. -/
def isPlain (c : Char) : Bool := c == '\t' || (0x20 ≤ c.toNat && c.toNat ≠ 0x7F)

/-- Skip blanks. -/
def blanks : Reader Unit := do let _ ← whilst isBlank

/-- Take a line feed, with a carriage return before it or not. -/
def lineFeed : Reader Unit := do
  let _ ← optionally ['\r']
  exactly ['\n']

/-- Skip a comment, if one comes next. -/
def comment : Reader Unit := do
  if ← optionally ['#'] then
    let _ ← whilst isPlain

/-- Take the end of a line: blanks, a comment, and a line feed or the end of the text. -/
def lineEnd : Reader Unit := do
  blanks
  comment
  if (← get).isEmpty then return else lineFeed

/-- The text behind blanks, comments and line feeds, from inside a comment or not. -/
def behindGap (inComment : Bool) : List Char → Option (List Char)
  | '\n' :: rest => behindGap false rest
  | '\r' :: '\n' :: rest => behindGap false rest
  | c :: rest =>
    if inComment then if isPlain c then behindGap true rest else none
    else if isBlank c then behindGap false rest
    else if c = '#' then behindGap true rest
    else if c = '\r' then none
    else some (c :: rest)
  | [] => if inComment then none else some []

/-- Skip blanks, comments and line feeds. -/
def gap : Reader Unit := do set (← behindGap false (← get))

/-- The text behind blanks and line feeds. -/
def behindBreaks : List Char → Option (List Char)
  | '\n' :: rest => behindBreaks rest
  | '\r' :: '\n' :: rest => behindBreaks rest
  | c :: rest =>
    if isBlank c then behindBreaks rest
    else if c = '\r' then none
    else some (c :: rest)
  | [] => some []

/-! ## Numbers -/

/-- A decimal digit. -/
def isDigit (c : Char) : Bool := '0' ≤ c && c ≤ '9'

/-- The digits at the start of a text, each perhaps behind one underscore, behind those that are
taken already, the last one first; and the text behind them. -/
def moreDigits (p : Char → Bool) (taken : List Char) :
    List Char → Option (List Char × List Char)
  | [] => some (taken.reverse, [])
  | ['_'] => none
  | '_' :: d :: rest => if p d then moreDigits p (d :: taken) rest else none
  | c :: rest =>
    if p c then moreDigits p (c :: taken) rest else some (taken.reverse, c :: rest)

/-- Take one or more digits, with single underscores between them. -/
def digits (p : Char → Bool) : Reader (List Char) := do
  let d ← one p
  let (ds, rest) ← moreDigits p [d] (← get)
  set rest
  return ds

/-- Take a sign, if one comes next, and tell whether it is a minus. -/
def sign : Reader Bool := do
  if ← optionally ['-'] then return true
  let _ ← optionally ['+']
  return false

/-- Take decimal digits without a leading zero. -/
def wholeDigits : Reader (List Char) := do
  match ← peek with
  | some '0' => do exactly ['0']; return ['0']
  | _ => digits isDigit

/-- An integer that fits 64 bits. -/
def inRange (n : Int) : Reader Toml :=
  if -0x8000000000000000 ≤ n ∧ n < 0x8000000000000000 then return .integer n else failure

/-- An integer in a base other than ten. -/
def based (mark : Char) (base : Nat) : Reader Toml := do
  exactly ['0', mark]
  let ds ← digits fun c => (Text.digitIn? base c).isSome
  match Text.ofDigits? base ds with
  | some n => inRange n
  | none => failure

/-- A decimal integer. -/
def decimal : Reader Toml := do
  let minus ← sign
  match Text.ofDigits? 10 (← wholeDigits) with
  | some n => inRange (if minus then -n else n)
  | none => failure

/-- The exponent of a number, if one comes next. -/
def exponent : Reader (Option Int) := do
  if (← optionally ['e']) || (← optionally ['E']) then
    let minus ← sign
    match Text.ofExponent? (← digits isDigit) with
    | some n => return some (if minus then -n else n)
    | none => failure
  else return none

/-- A number with a point or an exponent; one that is too large is none, unless it is negative. -/
def fractional : Reader Toml := do
  let minus ← sign
  let whole ← wholeDigits
  let fraction ← if ← optionally ['.'] then digits isDigit else pure []
  let e ← exponent
  if fraction.isEmpty && e.isNone then failure
  match Text.ofDigits? 10 (whole ++ fraction) with
  | none => failure
  | some n =>
    let x := Decimal.toFloat n (e.getD 0 - fraction.length)
    if minus then return .float (-x)
    else if x.isInf then failure
    else return .float x

/-- Infinity, or not a number. -/
def special : Reader Toml := do
  let minus ← sign
  let x : Float ← (do exactly "inf".toList; return 1.0 / 0.0) <|>
    (do exactly "nan".toList; return 0.0 / 0.0)
  return .float (if minus then -x else x)

/-! ## Dates and times -/

/-- The number that some digits denote. -/
def numeral (ds : List Char) : Nat := (Text.ofDigits? 10 ds).getD 0

/-- Take exactly `n` digits whose number is in a range. -/
def field (n low high : Nat) : Reader (List Char) := do
  let ds ← times (one isDigit) n
  if low ≤ numeral ds ∧ numeral ds ≤ high then return ds else failure

/-- The number of days of a month. -/
def daysOf (year month : Nat) : Nat :=
  if month = 2 then
    if year % 4 = 0 ∧ (year % 100 ≠ 0 ∨ year % 400 = 0) then 29 else 28
  else if month = 4 ∨ month = 6 ∨ month = 9 ∨ month = 11 then 30
  else 31

/-- A date. -/
def date : Reader (List Char) := do
  let year ← field 4 0 9999
  exactly ['-']
  let month ← field 2 1 12
  exactly ['-']
  let day ← field 2 1 (daysOf (numeral year) (numeral month))
  return year ++ '-' :: month ++ '-' :: day

/-- A time of day; a minute may have a leap second. -/
def time : Reader (List Char) := do
  let hour ← field 2 0 23
  exactly [':']
  let minute ← field 2 0 59
  exactly [':']
  let second ← field 2 0 60
  let fraction ← if ← optionally ['.'] then do
      let d ← one isDigit
      pure ('.' :: d :: (← whilst isDigit))
    else pure []
  return hour ++ ':' :: minute ++ ':' :: second ++ fraction

/-- The offset of a time from universal time. -/
def offset : Reader (List Char) := do
  match ← peek with
  | some 'Z' => do exactly ['Z']; return ['Z']
  | some 'z' => do exactly ['z']; return ['Z']
  | _ =>
    let s ← one fun c => c == '+' || c == '-'
    let hour ← field 2 0 23
    exactly [':']
    let minute ← field 2 0 59
    return s :: hour ++ ':' :: minute

/-- A time behind a date. -/
def timeOfDate : Reader (List Char) := do
  let _ ← one fun c => c == 'T' || c == 't' || c == ' '
  let t ← time
  let o ← offset <|> pure []
  return 'T' :: t ++ o

/-- A date, a time, or both. -/
def moment : Reader Toml := do
  let written ← (do
      let d ← date
      let t ← timeOfDate <|> pure []
      return d ++ t) <|> time
  return .moment (String.ofList written)

/-! ## Strings -/

/-- A character that may stand in a string as it is, apart from quotes and backslashes. -/
def isText (c : Char) : Bool := isPlain c

/-- The character with the given code point. -/
def codePoint (ds : List Char) : Reader Char := do
  match Text.ofDigits? 16 ds with
  | some n =>
    if n < 0xD800 ∨ (0xDFFF < n ∧ n < 0x110000) then return Char.ofNat n else failure
  | none => failure

/-- The rest of an escape, behind its backslash. -/
def escape : Reader Char := do
  match ← one fun _ => true with
  | 'b' => return '\x08'
  | 't' => return '\t'
  | 'n' => return '\n'
  | 'f' => return '\x0c'
  | 'r' => return '\r'
  | '"' => return '"'
  | '\\' => return '\\'
  | 'u' => codePoint (← times (one fun _ => true) 4)
  | 'U' => codePoint (← times (one fun _ => true) 8)
  | _ => failure

/-- The rest of a string between double quotes, behind the characters that are taken already,
the last one first. -/
def basicRest (taken : List Char) : Nat → Reader (List Char)
  | 0 => failure
  | fuel + 1 => do
    match ← one fun _ => true with
    | '"' => return taken.reverse
    | '\\' => do
      let c ← escape
      basicRest (c :: taken) fuel
    | c => if isText c then basicRest (c :: taken) fuel else failure

/-- A string between double quotes, with escapes. -/
def basic (fuel : Nat) : Reader String := do
  exactly ['"']
  return String.ofList (← basicRest [] fuel)

/-- A string between single quotes, without escapes. -/
def literal : Reader String := do
  exactly ['\'']
  let cs ← whilst fun c => isText c && c != '\''
  exactly ['\'']
  return String.ofList cs

/-- Skip the line feed and the blanks and line feeds behind it that a backslash hides. -/
def hiddenBreak : Reader Unit := do
  blanks
  lineFeed
  set (← behindBreaks (← get))

/-- The rest of a string of several lines, behind the characters that are taken already, the last
one first. Up to two quotes may stand just before the three that end it. -/
def linesRest (quote : Char) (escapes : Bool) (taken : List Char) : Nat → Reader (List Char)
  | 0 => failure
  | fuel + 1 => do
    match ← get with
    | [] => failure
    | c :: rest =>
      if c = quote then do
        let quotes ← whilst (· == quote)
        let n := quotes.length
        if n < 3 then linesRest quote escapes (quotes ++ taken) fuel
        else if n ≤ 5 then return (quotes.drop 3 ++ taken).reverse
        else failure
      else if c = '\n' ∨ c = '\r' then do
        lineFeed
        linesRest quote escapes ('\n' :: taken) fuel
      else if c = '\\' ∧ escapes then do
        set rest
        match ← peek with
        | some e =>
          if e = '\n' ∨ e = '\r' ∨ isBlank e then do
            hiddenBreak
            linesRest quote escapes taken fuel
          else do
            let c ← escape
            linesRest quote escapes (c :: taken) fuel
        | none => failure
      else if isText c then do
        set rest
        linesRest quote escapes (c :: taken) fuel
      else failure

/-- A string of several lines, between three quotes each;
a line feed at its start does not count. -/
def ofLines (quote : Char) (escapes : Bool) (fuel : Nat) : Reader String := do
  exactly [quote, quote, quote]
  match ← peek with
  | some '\n' => lineFeed
  | some '\r' => lineFeed
  | _ => pure ()
  return String.ofList (← linesRest quote escapes [] fuel)

/-- A string. -/
def string (fuel : Nat) : Reader String :=
  ofLines '"' true fuel <|> (do
    if "\"\"\"".toList.isPrefixOf (← get) then failure
    basic fuel) <|> ofLines '\'' false fuel <|> (do
    if "'''".toList.isPrefixOf (← get) then failure
    literal)

/-! ## Keys -/

/-- A character of a key without quotes. -/
def isBare (c : Char) : Bool := c.isAlphanum || c == '-' || c == '_'

/-- One part of a key. -/
def keyPart (fuel : Nat) : Reader String := do
  match ← peek with
  | some '"' => basic fuel
  | some '\'' => literal
  | _ =>
    let cs ← whilst isBare
    if cs.isEmpty then failure else return String.ofList cs

/-- Keys with more parts, and values nested deeper, than this are refused. -/
def deepest : Nat := 80

/-- The parts of a dotted key, with blanks around them, at most `most` of them. -/
def keyParts (fuel : Nat) : (most : Nat) → Reader (List String)
  | 0 => failure
  | most + 1 => do
    blanks
    let part ← keyPart fuel
    blanks
    if ← optionally ['.'] then return part :: (← keyParts fuel most) else return [part]

/-- A dotted key: the tables it goes through, and its last part. -/
def key (fuel : Nat) : Reader (List String × String) := do
  let parts ← keyParts fuel (deepest - 1)
  return (parts.dropLast, parts.getLast?.getD "")

/-! ## Values -/

/-- A number, a date or a time. -/
def quantity : Reader Toml :=
  moment <|> fractional <|> special <|> based 'x' 16 <|> based 'o' 8 <|> based 'b' 2 <|> decimal

mutual

/-- A value with at most `depth` levels of nesting left. -/
def value (depth : Nat) : Nat → Reader Toml
  | 0 => failure
  | fuel + 1 => do
    match ← peek with
    | some '"' => return .text (← string fuel)
    | some '\'' => return .text (← string fuel)
    | some 't' => do exactly "true".toList; return .boolean true
    | some 'f' => do exactly "false".toList; return .boolean false
    | some '[' =>
      if depth ≤ 1 then failure
      else do
        exactly ['[']
        return .array (← items (depth - 1) [] fuel)
    | some '\x7b' =>
      if depth ≤ 1 then failure
      else do
        exactly ['\x7b']
        let es ← pairs (depth - 1) fuel
        return .table (finishEntries es)
    | _ => quantity

/-- The items of an array up to its end, behind those that are taken already, the last one first; a
comma may follow the last item. -/
def items (depth : Nat) (taken : List Toml) : Nat → Reader (List Toml)
  | 0 => failure
  | fuel + 1 => do
    gap
    if ← optionally [']'] then return taken.reverse
    let item ← value depth fuel
    gap
    if ← optionally [','] then items depth (item :: taken) fuel
    else do
      exactly [']']
      return (item :: taken).reverse

/-- The entries of an inline table up to its end. -/
def pairs (depth : Nat) : Nat → Reader Entries
  | 0 => failure
  | fuel + 1 => do
    blanks
    if ← optionally ['\x7d'] then return []
    morePairs depth [] fuel

/-- Read an entry of an inline table, and those behind it. -/
def morePairs (depth : Nat) (es : Entries) : Nat → Reader Entries
  | 0 => failure
  | fuel + 1 => do
    let (above, last) ← key fuel
    exactly ['=']
    blanks
    let v ← value depth fuel
    blanks
    match es.add above last v with
    | none => failure
    | some es =>
      if ← optionally [','] then morePairs depth es fuel
      else do
        exactly ['\x7d']
        return es

end

/-! ## Lines -/

/-- A document under construction: its root, and the header that key lines belong to. -/
structure Document where
  root : Entries := []
  header : List String := []

/-- A key line. -/
def keyLine (d : Document) (fuel : Nat) : Reader Document := do
  let (above, last) ← key fuel
  exactly ['=']
  blanks
  let v ← value deepest fuel
  lineEnd
  match d.root.below (fun es => es.add above last v) d.header with
  | some root => return { d with root }
  | none => failure

/-- A header of a table, or of an item of an array of tables. -/
def headerLine (d : Document) (fuel : Nat) : Reader Document := do
  let isItem ← optionally ['[', '[']
  if !isItem then exactly ['[']
  let (above, last) ← key fuel
  exactly (if isItem then [']', ']'] else [']'])
  lineEnd
  match if isItem then d.root.openItem above last else d.root.openTable above last with
  | some root => return { root, header := above ++ [last] }
  | none => failure

/-- The lines of a text, behind those that the document is made of. -/
def lines (d : Document) : Nat → Reader Document
  | 0 => failure
  | fuel + 1 => do
    blanks
    match ← peek with
    | none => return d
    | some '\n' => do lineFeed; lines d fuel
    | some '\r' => do lineFeed; lines d fuel
    | some '#' => do lineEnd; lines d fuel
    | some '[' => do lines (← headerLine d fuel) fuel
    | some _ => do lines (← keyLine d fuel) fuel

/-- A whole text. -/
def document : Reader Toml := do
  let _ ← optionally ['\ufeff']
  let d ← lines {} ((← get).length + deepest + 1)
  return .table (finishEntries d.root)

end Reader

/-- **Read a configuration text;** `none` if it is not well-formed. -/
def parse (s : String) : Option Toml := Reader.document.run' s.toList

end ScriptDebug.Toml
