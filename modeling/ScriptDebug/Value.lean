import ScriptDebug.Json.Printer

/-!
# Values as the client sees them

A live value of the runtime is looked at through its shape: a scalar, a reference that is never
entered, or a container whose entries are values again and may lead back to it. A node is a tree cut
off at a number of container levels, with nothing of the runtime left in it.

* `view?` refuses a negative number of levels;
* keys are shown at level zero, the values of a container one level below it;
* a container that is cut off shows its identity in place of its entries.
-/

namespace ScriptDebug

/-- The identity of a live value, stable while it lives. -/
abbrev Identity := Nat

/-- The type names of the script language. -/
inductive TypeTag where
  | nil | boolean | number | string | table | function | userdata | thread
  deriving DecidableEq, Repr

/-- The word for a type. -/
def TypeTag.text : TypeTag → String
  | .nil => "nil"
  | .boolean => "boolean"
  | .number => "number"
  | .string => "string"
  | .table => "table"
  | .function => "function"
  | .userdata => "userdata"
  | .thread => "thread"

/-- The type with the given word. -/
def TypeTag.ofText? (s : String) : Option TypeTag :=
  [.nil, .boolean, .number, .string, .table, .function, .userdata, .thread].find?
    fun t => t.text == s

/-- **Shape.** What a live value `ν` looks like from outside. -/
inductive Shape (ν : Type) where
  | nil
  | boolean (b : Bool)
  | number (x : Float)
  | text (s : String)
  /-- A value that is never entered. -/
  | reference (tag : TypeTag) (identity : Identity)
  /-- A table, with its keys and values in their native order. -/
  | container (identity : Identity) (entries : List (ν × ν))

mutual

/-- **Node.** A value as the client sees it. -/
inductive Node where
  | mk (name : Option String) (tag : TypeTag) (truncated : Bool) (payload : Payload)

/-- What a node holds. -/
inductive Payload where
  | null
  | boolean (b : Bool)
  | number (x : Float)
  | text (s : String)
  /-- The identity of a value that is not entered. -/
  | identity (i : Identity)
  | entries (es : List (Node × Node))

end

namespace Node

/-- The name of the variable shown, if it has one. -/
def name : Node → Option String
  | .mk n _ _ _ => n

/-- The type of the value shown. -/
def tag : Node → TypeTag
  | .mk _ t _ _ => t

/-- Whether the node is a container that was cut off. -/
def truncated : Node → Bool
  | .mk _ _ t _ => t

/-- What the node holds. -/
def payload : Node → Payload
  | .mk _ _ _ p => p

/-- The same node under another name. -/
def rename (n : Node) (name : Option String) : Node :=
  .mk name n.tag n.truncated n.payload

/-- The entries of a container that is shown. -/
def entries (n : Node) : List (Node × Node) :=
  match n.payload with
  | .entries es => es
  | _ => []

/-- A `nil` without a name. -/
def nil : Node := .mk none .nil false .null

instance : Inhabited Node := ⟨nil⟩

/-- A leaf for a shape whose entries are not looked at. -/
def leaf (name : Option String) : Shape ν → Node
  | .nil => .mk name .nil false .null
  | .boolean b => .mk name .boolean false (.boolean b)
  | .number x => .mk name .number false (.number x)
  | .text s => .mk name .string false (.text s)
  | .reference tag i => .mk name tag false (.identity i)
  | .container i _ => .mk name .table true (.identity i)

/-- **Show** a value down to `levels` container levels. -/
def view (look : ν → Shape ν) (levels : Nat) (name : Option String) (v : ν) : Node :=
  match levels, look v with
  | levels + 1, .container _ es =>
    .mk name .table false (.entries (es.map fun (key, value) =>
      (leaf none (look key), view look levels none value)))
  | _, shape => leaf name shape

end Node

/-- A negative number of levels was asked for. -/
structure NegativeLevels where
  levels : Int
  deriving DecidableEq, Repr

/-- The wording of a negative number of levels. -/
def NegativeLevels.message (e : NegativeLevels) : String :=
  s!"serialization depth must not be negative, got {e.levels}"

/-- **Show** a value down to a number of levels given by a client. -/
def Node.view? (look : ν → Shape ν) (levels : Int) (name : Option String) (v : ν) :
    Except NegativeLevels Node :=
  if levels < 0 then .error ⟨levels⟩ else .ok (Node.view look levels.toNat name v)

/-! ## JSON form -/

/-- The members of a node around the JSON form of what it holds. -/
def Node.members (name : Option String) (tag : TypeTag) (truncated : Bool) (value : Json) :
    Json :=
  .object ((name.map fun n => ("name", Json.string n)).toList ++
    [("type", .string tag.text)] ++
    (if truncated then [("raw", .boolean true)] else []) ++ [("value", value)])

mutual

/-- The JSON form of a node. -/
def Node.json : Node → Json
  | .mk name tag truncated payload => Node.members name tag truncated payload.json

/-- The JSON form of what a node holds. -/
def Payload.json : Payload → Json
  | .null => .null
  | .boolean b => .boolean b
  | .number x => .ofFloat x
  | .text s => .string s
  | .identity i => .string (Text.hexToken i)
  | .entries es => .array (entriesJson es)

/-- The JSON form of the entries of a container. -/
def entriesJson : List (Node × Node) → List Json
  | [] => []
  | (key, value) :: rest =>
    .object [("key", key.json), ("value", value.json)] :: entriesJson rest

end

end ScriptDebug
