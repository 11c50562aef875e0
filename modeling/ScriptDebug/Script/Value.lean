import ScriptDebug.Value

/-!
# Values of scripts

What scripts compute with: scalars, texts, functions and tables. Functions and tables carry an
identity, which copying a value keeps. A table is never changed once it is made; its entries keep
the order in which they were written, equal keys included.
-/

namespace ScriptDebug.Script

/-- **Script value.** -/
inductive Value where
  | nil
  | boolean (b : Bool)
  | number (x : Float)
  | text (s : String)
  | function (identity : Identity)
  | table (identity : Identity) (entries : List (Value × Value))

namespace Value

instance : Inhabited Value := ⟨nil⟩

/-- The type of a value. -/
def tag : Value → TypeTag
  | nil => .nil
  | boolean _ => .boolean
  | number _ => .number
  | text _ => .string
  | function _ => .function
  | table .. => .table

/-- What a value looks like from outside. -/
def look : Value → Shape Value
  | nil => .nil
  | boolean b => .boolean b
  | number x => .number x
  | text s => .text s
  | function i => .reference .function i
  | table i entries => .container i entries

/-- Whether a value is the given text. -/
def isText (key : String) : Value → Bool
  | text s => s == key
  | _ => false

/-- **Field.** The value of the first entry with the given text as its key. -/
def field? (entries : List (Value × Value)) (key : String) : Option Value :=
  (entries.find? fun e => e.1.isText key).map (·.2)

/-- A table with texts as keys. -/
def ofRecord (i : Identity) (fields : List (String × Value)) : Value :=
  .table i (fields.map fun (k, v) => (.text k, v))

/-- A table with the numbers from one on as keys. -/
def ofItems (i : Identity) (items : List Value) : Value :=
  .table i ((items.zipIdx 1).map fun (v, n) => (.number n.toFloat, v))

end Value

/-- A variable of a frame: its name and value. -/
abbrev Variable := String × Value

end ScriptDebug.Script
