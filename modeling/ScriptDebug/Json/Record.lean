import ScriptDebug.Handle
import ScriptDebug.Json.Printer

/-!
# Reading JSON values as records

A record is read from an object, by the names of its members, or from an array, by position. Members
that no field asks for are skipped. In an object the members are looked at in the order they have;
the first one that does not fit is reported, and only then a missing one.
-/

namespace ScriptDebug.Json

/-- Why a JSON value does not have the form that is asked for. -/
inductive Mismatch where
  /-- A value of another type, and what was asked for. -/
  | wrongType (got : Json) (wanted : String)
  /-- An integer outside the range of the type. -/
  | outOfRange (n : Int) (wanted : String)
  /-- A field without a default is absent from an object. -/
  | missingField (name : String)
  /-- A field is given under two names. -/
  | duplicateField (name : String)
  /-- An array ends before the field with this index. -/
  | tooShort (index : Nat) (record : String) (count : Nat)
  /-- An array of this length has items that no field takes. -/
  | tooLong (length : Nat)
  /-- No form of a type with several forms fits. -/
  | noVariant (type : String)
  /-- A word that is none of the words of a choice. -/
  | noChoice (got : String) (words : List String)
  /-- A choice is given as an object that does not have just one member. -/
  | notSingle
  /-- A token that names no handle. -/
  | handle (m : Handle.Malformed)

/-- How a message names a value that was not asked for. -/
def described : Json → String
  | .null => "null"
  | .boolean b => s!"boolean `{b}`"
  | .number (.integer n) => s!"integer `{n}`"
  | .number (.float x) => s!"floating point `{String.ofList (floatChars x)}`"
  | .string s => s!"string {Text.quoted s}"
  | .array _ => "sequence"
  | .object _ => "map"

/-- The wording of a mismatch. -/
def Mismatch.message : Mismatch → String
  | .wrongType got wanted => s!"invalid type: {got.described}, expected {wanted}"
  | .outOfRange n wanted => s!"invalid value: integer `{n}`, expected {wanted}"
  | .missingField name => s!"missing field `{name}`"
  | .duplicateField name => s!"duplicate field `{name}`"
  | .tooShort index record count =>
    let elements := if count = 1 then "1 element" else s!"{count} elements"
    s!"invalid length {index}, expected struct {record} with {elements}"
  | .tooLong length => s!"invalid length {length}, expected fewer elements in array"
  | .noVariant type => s!"data did not match any variant of untagged enum {type}"
  | .noChoice got words =>
    let known := String.intercalate ", " (words.map fun w => s!"`{w}`")
    s!"unknown variant `{got}`, expected one of {known}"
  | .notSingle => "invalid value: map, expected map with a single key"
  | .handle m => m.message

/-- The outcome of reading a JSON value as an `α`. -/
abbrev Read (α : Type) := Except Mismatch α

/-! ## Single values -/

/-- A text. -/
def asString (wanted : String) : Json → Read String
  | .string s => .ok s
  | j => .error (.wrongType j wanted)

/-- A truth value. -/
def asFlag : Json → Read Bool
  | .boolean b => .ok b
  | j => .error (.wrongType j "a boolean")

/-- An integer between `low` and `high`. -/
def asInteger (low high : Int) (wanted : String) : Json → Read Int
  | .number (.integer n) => if low ≤ n && n ≤ high then .ok n else .error (.outOfRange n wanted)
  | j => .error (.wrongType j wanted)

/-- An unsigned 32-bit integer. -/
def asWord (j : Json) : Read Nat :=
  (asInteger 0 0xffffffff "u32" j).map Int.toNat

/-- A signed 32-bit integer. -/
def asSigned (j : Json) : Read Int :=
  asInteger (-0x80000000) 0x7fffffff "i32" j

/-- An unsigned 16-bit integer. -/
def asShort (j : Json) : Read Nat :=
  (asInteger 0 0xffff "u16" j).map Int.toNat

/-- An unsigned 64-bit integer. -/
def asLong (j : Json) : Read Nat :=
  (asInteger 0 0xffffffffffffffff "u64" j).map Int.toNat

/-- An unsigned 64-bit integer that counts something. -/
def asSize (j : Json) : Read Nat :=
  (asInteger 0 0xffffffffffffffff "usize" j).map Int.toNat

/-- A handle: its token, or its number. -/
def asHandle : Json → Read Handle
  | .string s => (Handle.parse s).mapError .handle
  | .number (.integer n) =>
    if 0 ≤ n then .ok (Handle.ofNat n.toNat) else .error (.noVariant "Repr")
  | _ => .error (.noVariant "Repr")

/-- **Read a choice** of a word: the word, or an object with just that word,
which stands for `null`. -/
def asChoice (words : List String) (ofWord : String → Option α) : Json → Read α
  | .string s => named s
  | .object [(s, j)] => do
    let a ← named s
    match j with
    | .null => return a
    | j => throw (.wrongType j "unit")
  | .object _ => .error .notSingle
  | j => .error (.wrongType j "string or map")
where
  /-- What a word chooses. -/
  named (s : String) : Read α :=
    match ofWord s with
    | some a => .ok a
    | none => .error (.noChoice s words)

/-- A value that may be left out or `null`. -/
def asOptional (read : Json → Read α) : Json → Read (Option α)
  | .null => .ok none
  | j => (read j).map some

/-! ## Records -/

/-- A field of a record. -/
structure Field where
  name : String
  /-- Another name the field may be given under. -/
  alias? : Option String := none
  /-- Whether the field has no default. -/
  required : Bool

/-- **Record.** The name and fields of a record, in their declared order, and how a member sets a
field of a record under construction. -/
structure Record (α : Type) where
  name : String
  fields : List Field
  blank : α
  set : α → String → Json → Read α

/-- The field that a member name belongs to. -/
def Record.field? (r : Record α) (key : String) : Option Field :=
  r.fields.find? fun f => f.name == key || f.alias? == some key

/-- Set the fields of a record from members, with the names of the fields set so far. -/
def Record.setMembers (r : Record α) (done : α) (seen : List String) :
    List (String × Json) → Read (α × List String)
  | [] => .ok (done, seen)
  | (key, j) :: rest =>
    match r.field? key with
    | none => r.setMembers done seen rest
    | some f =>
      if seen.contains f.name then .error (.duplicateField f.name)
      else do r.setMembers (← r.set done f.name j) (f.name :: seen) rest

/-- Set the fields of a record from items in declared order, from the field with index `i` on. -/
def Record.setItems (r : Record α) (done : α) (i : Nat) : List Field → List Json → Read α
  | [], _ => .ok done
  | f :: fields, [] =>
    if f.required then .error (.tooShort i r.name r.fields.length)
    else r.setItems done (i + 1) fields []
  | f :: fields, j :: items => do r.setItems (← r.set done f.name j) (i + 1) fields items

/-- **Read a record.** -/
def Record.read (r : Record α) : Json → Read α
  | .object members => do
    let (done, seen) ← r.setMembers r.blank [] members
    match r.fields.find? fun f => f.required && !seen.contains f.name with
    | some f => .error (.missingField f.name)
    | none => .ok done
  | .array items => do
    let done ← r.setItems r.blank 0 r.fields items
    if r.fields.length < items.length then .error (.tooLong items.length) else .ok done
  | j => .error (.wrongType j s!"struct {r.name}")

end ScriptDebug.Json
