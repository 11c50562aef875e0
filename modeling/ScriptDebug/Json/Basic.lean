import ScriptDebug.Ascending

/-!
# JSON values

A JSON value keeps integers and floating-point numbers apart, as their texts differ. The members of
an object keep the order in which they are written; `sorted` is the order of a value that was read
or built generically: by key, with the last of several equal keys.
-/

namespace ScriptDebug

/-- **JSON number.** An integer between `-2⁶³` and `2⁶⁴ - 1`, or a double. -/
inductive Json.Number where
  | integer (n : Int)
  | float (x : Float)

/-- **JSON value.** -/
inductive Json where
  | null
  | boolean (b : Bool)
  | number (n : Json.Number)
  | string (s : String)
  | array (items : List Json)
  | object (members : List (String × Json))

namespace Json

instance : Inhabited Json := ⟨.null⟩

/-- A natural number as a JSON value. -/
def ofNat (n : Nat) : Json := .number (.integer n)

/-- An integer as a JSON value. -/
def ofInt (n : Int) : Json := .number (.integer n)

/-- A double as a JSON value; one that is not finite has no number text and is `null`. -/
def ofFloat (x : Float) : Json :=
  if x.isFinite then .number (.float x) else .null

/-- An optional value, absent as `null`. -/
def ofOption (f : α → Json) : Option α → Json
  | none => .null
  | some a => f a

/-! ## Members -/

/-- Members in ascending key order, the last of equal keys kept. -/
def sortMembers (members : List (String × Json)) : List (String × Json) :=
  members.foldl (fun sorted (k, v) => Ascending.put k v sorted) []

mutual

/-- **Canonical order.** The value with the members of every object in ascending key order. -/
def sorted : Json → Json
  | .array items => .array (sortedItems items)
  | .object members => .object (sortMembers (sortedMembers members))
  | .null => .null
  | .boolean b => .boolean b
  | .number n => .number n
  | .string s => .string s

/-- Canonical order inside each item. -/
def sortedItems : List Json → List Json
  | [] => []
  | item :: rest => sorted item :: sortedItems rest

/-- Canonical order inside each member. -/
def sortedMembers : List (String × Json) → List (String × Json)
  | [] => []
  | (k, v) :: rest => (k, sorted v) :: sortedMembers rest

end

/-- The value of a member. -/
def member? (key : String) : Json → Option Json
  | .object members => (members.find? (·.1 == key)).map (·.2)
  | _ => none

end Json

end ScriptDebug
