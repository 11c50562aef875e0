import ScriptDebug.Value

/-!
# Value graphs

Live values that are held by number, so that a table may lead back to itself.
-/

namespace ScriptDebug

/-- **Value graph.** The shape of every value; the entries of a container are numbers of values. -/
structure ValueGraph where
  shapes : Array (Shape Nat) := #[]

/-- What a value looks like; a number without a value is `nil`. -/
def ValueGraph.look (g : ValueGraph) (v : Nat) : Shape Nat := (g.shapes[v]?).getD .nil

/-- Add a value, and tell its number. -/
def ValueGraph.add (g : ValueGraph) (s : Shape Nat) : ValueGraph × Nat :=
  (⟨g.shapes.push s⟩, g.shapes.size)

/-- Give another shape to a value. -/
def ValueGraph.set (g : ValueGraph) (v : Nat) (s : Shape Nat) : ValueGraph :=
  ⟨g.shapes.setIfInBounds v s⟩

end ScriptDebug
