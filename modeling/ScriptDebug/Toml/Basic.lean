/-!
# Configuration values

The values of a TOML text, and how its lines build up a table. A table remembers how it came to be,
as that decides whether a later line may add to it:

* a header opens a table once, and may be below tables that only longer headers have implied;
* a dotted key adds to tables that were made by dotted keys, or implied by headers;
* a value is complete where it stands: nothing is added to it.
-/

namespace ScriptDebug

/-- **Configuration value.** -/
inductive Toml where
  | text (s : String)
  | integer (n : Int)
  | float (x : Float)
  | boolean (b : Bool)
  /-- A date, a time, or both, as it is written. -/
  | moment (written : String)
  | array (items : List Toml)
  | table (entries : List (String × Toml))

namespace Toml

instance : Inhabited Toml := ⟨.table []⟩

/-- How a table came to be. -/
inductive Origin where
  /-- By a header of its own. -/
  | header
  /-- By a header of a table below it. -/
  | implied
  /-- By a dotted key. -/
  | dotted
  deriving DecidableEq, Repr

/-- **Draft** of a value while the text is read. -/
inductive Draft where
  | value (v : Toml)
  | table (origin : Origin) (entries : List (String × Draft))
  /-- An array of tables, each opened by a header: the last one, which is the open one, and those
  before it, the nearest one first. -/
  | tables (last : List (String × Draft)) (before : List (List (String × Draft)))

/-- The entries of a table under construction. -/
abbrev Entries := List (String × Draft)

/-- The draft under a key. -/
def Entries.get? (es : Entries) (key : String) : Option Draft :=
  (es.find? (·.1 == key)).map (·.2)

/-- Put a draft under a key, in the place of the one that was there. -/
def Entries.put (es : Entries) (key : String) (d : Draft) : Entries :=
  if es.any (·.1 == key) then es.map fun e => if e.1 == key then (key, d) else e
  else es ++ [(key, d)]

/-- **Add a value** under a dotted key, given as the tables it goes through and its last part. -/
def Entries.add (es : Entries) : List String → String → Toml → Option Entries
  | [], key, v => if (es.get? key).isSome then none else some (es ++ [(key, .value v)])
  | part :: rest, key, v =>
    match es.get? part with
    | none => do
      let below ← Entries.add [] rest key v
      return es.put part (.table .dotted below)
    | some (.value _) => none
    | some (.tables last before) =>
      if rest.isEmpty then none
      else do return es.put part (.tables (← Entries.add last rest key v) before)
    | some (.table origin below) =>
      if origin = .header ∨ (rest.isEmpty ∧ origin ≠ .dotted) then none
      else do return es.put part (.table origin (← Entries.add below rest key v))

/-- Go down the tables of a header, making those that are not there, and change what is below. -/
def Entries.below (es : Entries) (change : Entries → Option Entries) : List String → Option Entries
  | [] => change es
  | part :: rest =>
    match es.get? part with
    | none => do return es.put part (.table .implied (← Entries.below [] change rest))
    | some (.value _) => none
    | some (.tables last before) => do
      return es.put part (.tables (← Entries.below last change rest) before)
    | some (.table origin inner) => do
      return es.put part (.table origin (← Entries.below inner change rest))

/-- **Open a table** by its header. -/
def Entries.openTable (es : Entries) (above : List String) (key : String) : Option Entries :=
  es.below (fun es =>
    match es.get? key with
    | none => some (es.put key (.table .header []))
    | some (.table .implied inner) => some (es.put key (.table .header inner))
    | _ => none) above

/-- **Open an item** of an array of tables by its header. -/
def Entries.openItem (es : Entries) (above : List String) (key : String) : Option Entries :=
  es.below (fun es =>
    match es.get? key with
    | none => some (es.put key (.tables [] []))
    | some (.tables last before) => some (es.put key (.tables [] (last :: before)))
    | _ => none) above

mutual

/-- The value of a finished draft. -/
def Draft.finish : Draft → Toml
  | .value v => v
  | .table _ es => .table (finishEntries es)
  | .tables last before => .array (finishItems [.table (finishEntries last)] before)

/-- The values of finished entries. -/
def finishEntries : List (String × Draft) → List (String × Toml)
  | [] => []
  | (key, d) :: rest => (key, d.finish) :: finishEntries rest

/-- The values of finished tables, the nearest one first, in front of the values behind them. -/
def finishItems (behind : List Toml) : List (List (String × Draft)) → List Toml
  | [] => behind
  | es :: rest => finishItems (.table (finishEntries es) :: behind) rest

end

end Toml

end ScriptDebug
