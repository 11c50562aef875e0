import ScriptDebug.Value.Graph

/-!
# Values shown down to a depth

A live value may lead back to itself, so that a walk through it need not come to an end; what is
shown of it is a tree. A `Place` is a way through either: entry after entry, each time to its key or
to its value. Every step of a place passes through one list of entries.

1. `Node.at?` is the node of a tree at a place, and `walk` the live value that the same steps lead
   to.
2. A value that is shown down to some levels has a node at a place if the walk leads somewhere, has
   no more steps than levels, and goes on through values only; and the node is what the walk leads
   to, shown down to the levels that are left (`at?_view`).
3. So the tree depicts the value (`Depicts`), and a negative number of levels is refused
   (`view_depicts`).
-/

namespace ScriptDebug

variable {ν : Type} {look : ν → Shape ν} {levels : Nat} {name : Option String}
  {v w : ν} {n m : Node}

/-! ## Places -/

/-- The two halves of an entry. -/
inductive Side where
  | key | value
  deriving DecidableEq, Repr

/-- The half of an entry on a side. -/
def Side.of {α : Type} : Side → α × α → α
  | .key, e => e.1
  | .value, e => e.2

/-- **Place.** The entries taken from the root on, and the side of each. -/
abbrev Place := List (Nat × Side)

namespace Place

/-- Whether a place is that of a key. -/
def isKey (place : Place) : Bool := place.getLast?.any (·.2 == .key)

/-- Whether a place lies inside a key. -/
def insideKey (place : Place) : Bool := place.dropLast.any (·.2 == .key)

variable {i : Nat} {side : Side} {place more : Place}

theorem isKey_cons (hne : place ≠ []) : isKey ((i, side) :: place) = isKey place := by
  unfold isKey
  rw [List.getLast?_cons_of_ne_nil hne]

theorem insideKey_cons (hne : place ≠ []) :
    insideKey ((i, side) :: place) = (side == .key || insideKey place) := by
  unfold insideKey
  rw [List.dropLast_cons_of_ne_nil hne, List.any_cons]

/-- What goes on behind a place that is a key, or is inside one, is inside a key. -/
theorem not_key_of_append (hmore : more ≠ []) (h : insideKey (place ++ more) = false) :
    isKey place = false ∧ insideKey place = false := by
  induction place with
  | nil => exact ⟨rfl, rfl⟩
  | cons s place ih =>
    obtain ⟨i, side⟩ := s
    rw [List.cons_append, insideKey_cons (by simp [hmore]), Bool.or_eq_false_iff] at h
    obtain ⟨hside, hrest⟩ := h
    by_cases hplace : place = []
    · subst hplace
      exact ⟨hside, rfl⟩
    · rw [isKey_cons hplace, insideKey_cons hplace, hside]
      exact ih hrest

end Place

/-! ## Following a place -/

/-- The entries of a shape; only a container has some. -/
def Shape.entries : Shape ν → List (ν × ν)
  | .container _ es => es
  | _ => []

theorem Shape.container_or_other (shape : Shape ν) :
    (∃ i es, shape = .container i es) ∨ ∀ i es, shape ≠ .container i es := by
  cases shape with
  | container i es => exact .inl ⟨i, es, rfl⟩
  | _ => exact .inr fun _ _ h => nomatch h

theorem Shape.entries_of_other {shape : Shape ν} (h : ∀ i es, shape ≠ .container i es) :
    shape.entries = [] := by
  cases shape with
  | container i es => exact absurd rfl (h i es)
  | _ => rfl

/-- **Walk.** The live value that a place leads to; it may have been passed before. -/
def walk (look : ν → Shape ν) (v : ν) : Place → Option ν
  | [] => some v
  | (i, side) :: place => ((look v).entries[i]?).bind fun e => walk look (side.of e) place

/-- **The node at a place.** -/
def Node.at? (n : Node) : Place → Option Node
  | [] => some n
  | (i, side) :: place => (n.entries[i]?).bind fun e => (side.of e).at? place

theorem walk_append (place more : Place) :
    walk look v (place ++ more) = (walk look v place).bind fun w => walk look w more := by
  induction place generalizing v with
  | nil => rfl
  | cons s place ih =>
    obtain ⟨i, side⟩ := s
    show ((look v).entries[i]?).bind _ = (((look v).entries[i]?).bind _).bind _
    cases (look v).entries[i]? with
    | none => rfl
    | some e => exact ih

namespace Node

/-! ## What is shown at a place -/

theorem entries_leaf (name : Option String) (shape : Shape ν) : (leaf name shape).entries = [] := by
  cases shape <;> rfl

theorem view_zero (look : ν → Shape ν) (name : Option String) (v : ν) :
    view look 0 name v = leaf name (look v) := by
  rw [view]
  rintro k i es ⟨⟩

theorem view_of_container {i : Identity} {es : List (ν × ν)} (h : look v = .container i es)
    (levels : Nat) (name : Option String) :
    view look (levels + 1) name v = .mk name .table false (.entries
      (es.map fun e => (leaf none (look e.1), view look levels none e.2))) := by
  rw [view.eq_1 _ _ _ _ _ _ h]

theorem view_of_other (h : ∀ i es, look v ≠ .container i es) (levels : Nat) (name : Option String) :
    view look levels name v = leaf name (look v) := by
  rw [view]
  intro k i es _
  exact h i es

/-- What the walk to a place leads to, as it is shown there: a key in short, a value down to the
levels that are left. -/
def shownAt (look : ν → Shape ν) (levels : Nat) (name : Option String) (place : Place)
    (w : ν) : Node :=
  if place.isKey then leaf none (look w)
  else view look (levels - place.length) (if place = [] then name else none) w

theorem at?_leaf (name : Option String) (shape : Shape ν) (place : Place) :
    (leaf name shape).at? place = if place = [] then some (leaf name shape) else none := by
  cases place with
  | nil => rfl
  | cons s place =>
    obtain ⟨i, side⟩ := s
    simp [at?, entries_leaf]

theorem shownAt_cons {i : Nat} {side : Side} {place : Place} (hne : place ≠ []) :
    shownAt look (levels + 1) name ((i, side) :: place) w = shownAt look levels none place w := by
  unfold shownAt
  rw [Place.isKey_cons hne, List.length_cons, Nat.add_sub_add_right]
  simp

/-- **The node at a place** of what is shown of a value. -/
theorem at?_view (look : ν → Shape ν) (levels : Nat) (name : Option String) (v : ν)
    (place : Place) :
    (view look levels name v).at? place =
      if place.length ≤ levels ∧ place.insideKey = false then
        (walk look v place).map (shownAt look levels name place)
      else none := by
  induction place generalizing levels name v with
  | nil => rfl
  | cons s place ih =>
    obtain ⟨i, side⟩ := s
    rcases (look v).container_or_other with ⟨id, es, hlook⟩ | hother
    · cases levels with
      | zero =>
        rw [view_zero, at?_leaf, if_neg (by simp), if_neg (by simp)]
      | succ levels =>
        have hentries : (view look (levels + 1) name v).entries =
            es.map fun e => (leaf none (look e.1), view look levels none e.2) := by
          rw [view_of_container hlook]
          rfl
        have hwalk : (look v).entries = es := by rw [hlook]; rfl
        simp only [at?, walk, hentries, hwalk, List.getElem?_map]
        cases es[i]? with
        | none => simp
        | some e =>
          simp only [Option.map_some, Option.bind_some]
          by_cases hplace : place = []
          · subst hplace
            cases side <;> simp [Side.of, at?, walk, shownAt, Place.isKey, Place.insideKey]
          · rw [Place.insideKey_cons hplace]
            cases side with
            | key => simp [Side.of, at?_leaf, hplace]
            | value =>
              have hshown : shownAt look (levels + 1) name ((i, .value) :: place) =
                  shownAt look levels none place := by
                funext w
                exact shownAt_cons hplace
              rw [hshown]
              simpa [Side.of] using ih levels none e.2
    · rw [view_of_other hother, at?_leaf, if_neg (by simp)]
      simp [walk, Shape.entries_of_other hother]

theorem at?_view_eq_some {place : Place} (h : (view look levels name v).at? place = some m)
    (hw : walk look v place = some w) :
    place.length ≤ levels ∧ place.insideKey = false ∧ m = shownAt look levels name place w := by
  rw [at?_view] at h
  split at h
  · rename_i hplace
    rw [hw] at h
    cases h
    exact ⟨hplace.1, hplace.2, rfl⟩
  · cases h

theorem exists_walk_of_at? {place : Place} (h : (view look levels name v).at? place = some m) :
    ∃ w, walk look v place = some w := by
  rw [at?_view] at h
  split at h
  · obtain ⟨w, hw, -⟩ := Option.map_eq_some_iff.1 h
    exact ⟨w, hw⟩
  · cases h

end Node

/-! ## Depicting -/

/-- How a value is shown that is no container: by its type,
and by itself or the identity that it refers to. -/
inductive Shape.Plain : Shape ν → TypeTag → Payload → Prop
  | nil : Plain .nil .nil .null
  | boolean (b : Bool) : Plain (.boolean b) .boolean (.boolean b)
  | number (x : Float) : Plain (.number x) .number (.number x)
  | text (s : String) : Plain (.text s) .string (.text s)
  | reference (tag : TypeTag) (i : Identity) : Plain (.reference tag i) tag (.identity i)

/-- **Depicts.** A tree shows a live value down to some levels. -/
structure Node.Depicts (n : Node) (look : ν → Shape ν) (levels : Nat) (name : Option String)
    (v : ν) : Prop where
  /-- A node stands where a walk leads to that passes through no more lists of entries than levels,
  and through no key; and nowhere else. -/
  stands : ∀ place, (n.at? place).isSome = true ↔
    (walk look v place).isSome = true ∧ place.length ≤ levels ∧ place.insideKey = false
  /-- The root has the name that is asked for, and no other node has one. -/
  named : ∀ place m, n.at? place = some m → m.name = if place = [] then name else none
  plain : ∀ place m w, n.at? place = some m → walk look v place = some w →
    (∀ i es, look w ≠ .container i es) → (look w).Plain m.tag m.payload
  /-- A container among the values is entered while levels are left. -/
  expanded : ∀ place m w i es, n.at? place = some m → walk look v place = some w →
    look w = .container i es →
    place.isKey = false → place.length < levels →
      m.tag = .table ∧ ∃ entries, m.payload = .entries entries ∧ entries.length = es.length
  /-- A container that is a key, or for which no level is left, shows its identity. -/
  cut : ∀ place m w i es, n.at? place = some m → walk look v place = some w →
    look w = .container i es →
    place.isKey = true ∨ place.length = levels → m.tag = .table ∧ m.payload = .identity i
  truncated : ∀ place m w, n.at? place = some m → walk look v place = some w →
    (m.truncated = true ↔ (∃ i es, look w = .container i es) ∧
      (place.isKey = true ∨ place.length = levels))

namespace Node

theorem name_leaf (name : Option String) (shape : Shape ν) : (leaf name shape).name = name := by
  cases shape <;> rfl

theorem name_view (look : ν → Shape ν) (levels : Nat) (name : Option String) (v : ν) :
    (view look levels name v).name = name := by
  unfold view
  split
  · rfl
  · exact name_leaf name _

theorem plain_leaf {shape : Shape ν} (h : ∀ i es, shape ≠ .container i es) (name : Option String) :
    shape.Plain (leaf name shape).tag (leaf name shape).payload ∧
    (leaf name shape).truncated = false := by
  cases shape with
  | nil => exact ⟨.nil, rfl⟩
  | boolean b => exact ⟨.boolean b, rfl⟩
  | number x => exact ⟨.number x, rfl⟩
  | text s => exact ⟨.text s, rfl⟩
  | reference tag i => exact ⟨.reference tag i, rfl⟩
  | container i es => exact absurd rfl (h i es)

section ShownAt

variable {place : Place} {i : Identity} {es : List (ν × ν)}

theorem ne_nil_of_isKey (h : place.isKey = true) : place ≠ [] := by
  rintro rfl
  cases h

theorem shownAt_of_other (h : ∀ i es, look w ≠ .container i es) (levels : Nat)
    (name : Option String) (place : Place) :
    shownAt look levels name place w = leaf (if place = [] then name else none) (look w) := by
  unfold shownAt
  split
  · rename_i hkey
    rw [if_neg (ne_nil_of_isKey hkey)]
  · exact view_of_other h _ _

theorem shownAt_of_cut (h : look w = .container i es)
    (hcut : place.isKey = true ∨ place.length = levels) (name : Option String) :
    shownAt look levels name place w =
      .mk (if place = [] then name else none) .table true (.identity i) := by
  unfold shownAt
  split
  · rename_i hkey
    rw [if_neg (ne_nil_of_isKey hkey), h]
    rfl
  · rename_i hkey
    have hlength : place.length = levels := hcut.resolve_left hkey
    rw [hlength, Nat.sub_self, view_zero, h]
    rfl

theorem shownAt_of_expanded (h : look w = .container i es) (hkey : place.isKey = false)
    (hlt : place.length < levels) (name : Option String) : ∃ entries, entries.length = es.length ∧
      shownAt look levels name place w =
        .mk (if place = [] then name else none) .table false (.entries entries) := by
  obtain ⟨left, hleft⟩ := Nat.exists_eq_add_of_lt hlt
  have hsub : levels - place.length = left + 1 := by omega
  unfold shownAt
  rw [hkey, if_neg (by simp), hsub, view_of_container h]
  exact ⟨_, List.length_map _, rfl⟩

end ShownAt

theorem depicts_view (look : ν → Shape ν) (levels : Nat) (name : Option String) (v : ν) :
    (view look levels name v).Depicts look levels name v where
  stands place := by
    rw [at?_view]
    split
    · rename_i hplace
      simp [hplace]
    · rename_i hplace
      simp only [Option.isSome_none, Bool.false_eq_true, false_iff]
      exact fun h => hplace h.2
  named place m hm := by
    obtain ⟨w, hw⟩ := exists_walk_of_at? hm
    obtain ⟨-, -, rfl⟩ := at?_view_eq_some hm hw
    unfold shownAt
    split
    · rename_i hkey
      rw [name_leaf, if_neg (ne_nil_of_isKey hkey)]
    · exact name_view _ _ _ _
  plain place m w hm hw hother := by
    obtain ⟨-, -, rfl⟩ := at?_view_eq_some hm hw
    rw [shownAt_of_other hother]
    exact (plain_leaf hother _).1
  expanded place m w i es hm hw hlook hkey hlt := by
    obtain ⟨-, -, rfl⟩ := at?_view_eq_some hm hw
    obtain ⟨entries, hlength, hshown⟩ := shownAt_of_expanded hlook hkey hlt name
    rw [hshown]
    exact ⟨rfl, entries, rfl, hlength⟩
  cut place m w i es hm hw hlook hcut := by
    obtain ⟨-, -, rfl⟩ := at?_view_eq_some hm hw
    rw [shownAt_of_cut hlook hcut]
    exact ⟨rfl, rfl⟩
  truncated place m w hm hw := by
    obtain ⟨hlength, -, rfl⟩ := at?_view_eq_some hm hw
    rcases (look w).container_or_other with ⟨i, es, hlook⟩ | hother
    · by_cases hcut : place.isKey = true ∨ place.length = levels
      · rw [shownAt_of_cut hlook hcut]
        exact ⟨fun _ => ⟨⟨i, es, hlook⟩, hcut⟩, fun _ => rfl⟩
      · obtain ⟨hkey, hne⟩ := not_or.1 hcut
        obtain ⟨entries, -, hshown⟩ := shownAt_of_expanded hlook (Bool.eq_false_iff.2 hkey)
          (Nat.lt_of_le_of_ne hlength hne) name
        rw [hshown]
        constructor
        · intro h
          cases h
        · intro h
          exact absurd h.2 hcut
    · rw [shownAt_of_other hother, (plain_leaf hother _).2]
      constructor
      · intro h
        cases h
      · rintro ⟨⟨i, es, hlook⟩, -⟩
        exact absurd hlook (hother i es)

/-- **A value is shown down to a depth**, or a negative number of levels is refused. -/
theorem view_depicts (look : ν → Shape ν) (levels : Int) (name : Option String) (v : ν) :
    match view? look levels name v with
    | .error e => levels < 0 ∧ e = ⟨levels⟩
    | .ok n => 0 ≤ levels ∧ n.Depicts look levels.toNat name v := by
  unfold view?
  by_cases hneg : levels < 0
  · rw [if_pos hneg]
    exact ⟨hneg, rfl⟩
  · rw [if_neg hneg]
    exact ⟨Int.not_lt.1 hneg, depicts_view look levels.toNat name v⟩

end Node

end ScriptDebug
