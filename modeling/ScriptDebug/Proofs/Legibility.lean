import ScriptDebug.Proofs.Places
import ScriptDebug.Text.Numeral

/-!
# What the JSON form of a node tells

The form of a node writes its payload without saying what kind it is, and two kinds are both written
as a string.

1. In what is shown of a live value, the type of a node and whether it is cut off leave one kind of
   payload (`Suits`), at every place (`regular_view`). This needs that references are of types that
   are never entered and that numbers are finite (`Admissible`).
2. So the members of such nodes tell the nodes apart, level by level (`Regular.equal_of_json`).

JSON values are equal if their canonical orders are. Doubles may be compared as they are, or as
numbers: what follows is for any comparison, on both sides (`Equal`).
-/

namespace ScriptDebug

variable {ν μ : Type} {look : ν → Shape ν} {v w : ν} {levels : Nat} {name other : Option String}
  {same : Float → Float → Prop} {n m : Node} {p q : Payload} {tag tag' : TypeTag}
  {truncated truncated' : Bool} {value value' j : Json} {es fs : List (Node × Node)}

/-! ## Equality -/

namespace Json

mutual

/-- Whether two JSON values are equal, with the doubles in them compared by `same`. -/
def Equal (same : Float → Float → Prop) : Json → Json → Prop
  | .null, .null => True
  | .boolean b, .boolean c => b = c
  | .number (.integer n), .number (.integer m) => n = m
  | .number (.float x), .number (.float y) => same x y
  | .string s, .string t => s = t
  | .array items, .array others => EqualItems same items others
  | .object members, .object others => EqualMembers same members others
  | _, _ => False

/-- Whether items are equal one by one. -/
def EqualItems (same : Float → Float → Prop) : List Json → List Json → Prop
  | [], [] => True
  | item :: items, other :: others => Equal same item other ∧ EqualItems same items others
  | _, _ => False

/-- Whether members are equal one by one. -/
def EqualMembers (same : Float → Float → Prop) : List (String × Json) → List (String × Json) → Prop
  | [], [] => True
  | (k, v) :: members, (l, w) :: others => k = l ∧ Equal same v w ∧ EqualMembers same members others
  | _, _ => False

end

mutual

theorem Equal.refl (h : ∀ x, same x x) : ∀ j : Json, Equal same j j
  | .null => trivial
  | .boolean _ => rfl
  | .number (.integer _) => rfl
  | .number (.float x) => h x
  | .string _ => rfl
  | .array items => EqualItems.refl h items
  | .object members => EqualMembers.refl h members

theorem EqualItems.refl (h : ∀ x, same x x) : ∀ items : List Json, EqualItems same items items
  | [] => trivial
  | item :: items => ⟨Equal.refl h item, EqualItems.refl h items⟩

theorem EqualMembers.refl (h : ∀ x, same x x) :
    ∀ members : List (String × Json), EqualMembers same members members
  | [] => trivial
  | (_, v) :: members => ⟨rfl, Equal.refl h v, EqualMembers.refl h members⟩

end

end Json

mutual

/-- Whether two nodes are equal, with the doubles in them compared by `same`. -/
def Node.Equal (same : Float → Float → Prop) : Node → Node → Prop
  | .mk name tag truncated p, .mk other tag' truncated' q =>
    name = other ∧ tag = tag' ∧ truncated = truncated' ∧ p.Equal same q

/-- Whether two payloads are of one kind and equal. -/
def Payload.Equal (same : Float → Float → Prop) : Payload → Payload → Prop
  | .null, .null => True
  | .boolean b, .boolean c => b = c
  | .number x, .number y => same x y
  | .text s, .text t => s = t
  | .identity i, .identity k => i = k
  | .entries es, .entries fs => EqualEntries same es fs
  | _, _ => False

/-- Whether entries are equal one by one. -/
def EqualEntries (same : Float → Float → Prop) : List (Node × Node) → List (Node × Node) → Prop
  | [], [] => True
  | (k, v) :: es, (l, w) :: fs => k.Equal same l ∧ v.Equal same w ∧ EqualEntries same es fs
  | _, _ => False

end

mutual

theorem Node.Equal.eq : ∀ {n m : Node}, n.Equal (· = ·) m → n = m
  | .mk .., .mk .., ⟨hname, htag, htruncated, hpayload⟩ => by
    rw [hname, htag, htruncated, Payload.Equal.eq hpayload]

theorem Payload.Equal.eq : ∀ {p q : Payload}, p.Equal (· = ·) q → p = q
  | .null, .null, _ => rfl
  | .boolean _, .boolean _, h => congrArg _ h
  | .number _, .number _, h => congrArg _ h
  | .text _, .text _, h => congrArg _ h
  | .identity _, .identity _, h => congrArg _ h
  | .entries _, .entries _, h => congrArg _ (EqualEntries.eq h)

theorem EqualEntries.eq : ∀ {es fs : List (Node × Node)}, EqualEntries (· = ·) es fs → es = fs
  | [], [], _ => rfl
  | (_, _) :: _, (_, _) :: _, ⟨hkey, hvalue, hrest⟩ => by
    rw [hkey.eq, hvalue.eq, EqualEntries.eq hrest]

end

/-! ## Kinds of payload -/

/-- **Admissible.** A reference is a function, userdata or a thread, and a number is finite. -/
def Shape.Admissible : Shape ν → Prop
  | .reference tag _ => tag = .function ∨ tag = .userdata ∨ tag = .thread
  | .number x => x.isFinite = true
  | _ => True

/-- A live value is admissible if everything is that can be reached from it. -/
def Admissible (look : ν → Shape ν) (v : ν) : Prop :=
  ∀ place w, walk look v place = some w → (look w).Admissible

theorem Admissible.entry {i : Identity} {entries : List (ν × ν)} (h : Admissible look v)
    (hlook : look v = .container i entries) {e : ν × ν} (he : e ∈ entries) (side : Side) :
    Admissible look (side.of e) := by
  intro place w hw
  obtain ⟨k, hk⟩ := List.mem_iff_getElem?.1 he
  refine h ((k, side) :: place) w ?_
  show ((look v).entries[k]?).bind _ = some w
  rw [hlook]
  show (entries[k]?).bind _ = some w
  rw [hk]
  exact hw

/-- **Suits.** The kind of payload that goes with a type and the flag of what is cut off. -/
inductive Payload.Suits : Payload → TypeTag → Bool → Prop
  | null : Suits .null .nil false
  | boolean (b : Bool) : Suits (.boolean b) .boolean false
  | number {x : Float} (h : x.isFinite = true) : Suits (.number x) .number false
  | text (s : String) : Suits (.text s) .string false
  | reference {tag : TypeTag} (h : tag = .function ∨ tag = .userdata ∨ tag = .thread)
      (i : Identity) :
    Suits (.identity i) tag false
  | cut (i : Identity) : Suits (.identity i) .table true
  | entries (es : List (Node × Node)) : Suits (.entries es) .table false

/-- **Regular.** Every node of a tree has a payload that suits it. -/
inductive Node.Regular : Node → Prop
  | mk {name : Option String} {tag : TypeTag} {truncated : Bool} {p : Payload}
      (suits : p.Suits tag truncated)
    (halves : ∀ e ∈ Node.entries (.mk name tag truncated p), ∀ side : Side, Regular (side.of e)) :
    Regular (.mk name tag truncated p)

namespace Node

theorem regular_leaf {shape : Shape ν} (h : shape.Admissible) (name : Option String) :
    (leaf name shape).Regular := by
  cases shape with
  | nil => exact .mk .null nofun
  | boolean b => exact .mk (.boolean b) nofun
  | number x => exact .mk (.number h) nofun
  | text s => exact .mk (.text s) nofun
  | reference tag i => exact .mk (.reference h i) nofun
  | container i es => exact .mk (.cut i) nofun

/-- **What is shown** of a live value is regular. -/
theorem regular_view (h : Admissible look v) (levels : Nat) (name : Option String) :
    (view look levels name v).Regular := by
  induction levels generalizing name v with
  | zero =>
    rw [view_zero]
    exact regular_leaf (h [] v rfl) name
  | succ levels ih =>
    rcases (look v).container_or_other with ⟨i, es, hlook⟩ | hother
    · rw [view_of_container hlook]
      refine .mk (.entries _) fun e he side => ?_
      obtain ⟨entry, hentry, rfl⟩ := List.mem_map.1 he
      have hside := h.entry hlook hentry side
      cases side with
      | key => exact regular_leaf (hside [] _ rfl) none
      | value => exact ih hside none
    · rw [view_of_other hother]
      exact regular_leaf (h [] v rfl) name

theorem regular_of_view? {levels : Int} (h : Admissible look v)
    (hn : view? look levels name v = .ok n) :
    n.Regular := by
  unfold view? at hn
  split at hn
  · cases hn
  · cases hn
    exact regular_view h _ _

end Node

/-! ## Members -/

theorem TypeTag.ofText?_text (tag : TypeTag) : TypeTag.ofText? tag.text = some tag := by
  cases tag <;> decide

theorem TypeTag.text_injective : Function.Injective TypeTag.text := by
  intro tag tag' h
  have hread := congrArg TypeTag.ofText? h
  rw [ofText?_text, ofText?_text] at hread
  exact Option.some.inj hread

theorem Text.hexToken_injective : Function.Injective hexToken := by
  intro i k h
  have hchars : hexChars i = hexChars k := by
    simpa [hexToken, String.ofList_inj] using h
  have hread := congrArg (ofDigits? 16) hchars
  rw [ofDigits?_hexChars, ofDigits?_hexChars] at hread
  exact Option.some.inj hread

/-- The members that a node always has, in order, and before them the mark of what is cut off. -/
def Node.lastMembers (tag : TypeTag) (truncated : Bool) (value : Json) : List (String × Json) :=
  (if truncated then [("raw", .boolean true)] else []) ++
    [("type", .string tag.text), ("value", value.sorted)]

theorem Node.sorted_members (name : Option String) (tag : TypeTag) (truncated : Bool)
    (value : Json) :
    (Node.members name tag truncated value).sorted =
      .object ((name.map fun n => ("name", Json.string n)).toList ++
        lastMembers tag truncated value) := by
  cases name <;> cases truncated <;> rfl

theorem Node.equal_of_lastMembers (h : Json.EqualMembers same (lastMembers tag truncated value)
    (lastMembers tag' truncated' value')) :
    tag = tag' ∧ truncated = truncated' ∧ value.sorted.Equal same value'.sorted := by
  have htold : Json.EqualMembers same [("type", .string tag.text), ("value", value.sorted)]
      [("type", .string tag'.text), ("value", value'.sorted)] →
      tag = tag' ∧ value.sorted.Equal same value'.sorted :=
    fun ⟨_, htype, _, hvalue, _⟩ => ⟨TypeTag.text_injective htype, hvalue⟩
  cases truncated <;> cases truncated'
  · exact ⟨(htold h).1, rfl, (htold h).2⟩
  · exact absurd h.1 (by decide)
  · exact absurd h.1 (by decide)
  · exact ⟨(htold h.2.2).1, rfl, (htold h.2.2).2⟩

/-- **Equal members** are those of nodes that have all in common but what they hold. -/
theorem Node.equal_of_members (h : (Node.members name tag truncated value).sorted.Equal same
    (Node.members other tag' truncated' value').sorted) :
    name = other ∧ tag = tag' ∧ truncated = truncated' ∧ value.sorted.Equal same value'.sorted := by
  rw [sorted_members, sorted_members] at h
  -- where one of them has no name, its first key is another one
  cases name <;> cases other
  · exact ⟨rfl, equal_of_lastMembers h⟩
  · cases truncated <;> exact absurd h.1 (by decide)
  · cases truncated' <;> exact absurd h.1 (by decide)
  · exact ⟨congrArg some h.2.1, equal_of_lastMembers h.2.2⟩

/-! ## From the form to the node -/

theorem sorted_entriesJson_cons (key value : Node) (es : List (Node × Node)) :
    Json.sortedItems (entriesJson ((key, value) :: es)) =
      .object [("key", key.json.sorted), ("value", value.json.sorted)] :: Json.sortedItems
        (entriesJson es) :=
  rfl

theorem equalEntries_of_items
    (ih : ∀ e ∈ es, ∀ (side : Side) {m : Node}, m.Regular →
      (side.of e).json.sorted.Equal same m.json.sorted → (side.of e).Equal same m)
    (hfs : ∀ f ∈ fs, ∀ side : Side, (side.of f).Regular)
    (h : Json.EqualItems same (Json.sortedItems (entriesJson es))
      (Json.sortedItems (entriesJson fs))) :
    EqualEntries same es fs := by
  induction es generalizing fs with
  | nil =>
    cases fs with
    | nil => trivial
    | cons f fs => exact h.elim
  | cons e es ihes =>
    cases fs with
    | nil => exact h.elim
    | cons f fs =>
      obtain ⟨key, value⟩ := e
      obtain ⟨key', value'⟩ := f
      rw [sorted_entriesJson_cons, sorted_entriesJson_cons] at h
      obtain ⟨⟨-, hkey, -, hvalue, -⟩, hrest⟩ := h
      have hf := hfs _ List.mem_cons_self
      exact ⟨ih _ List.mem_cons_self .key (hf .key) hkey,
        ih _ List.mem_cons_self .value (hf .value) hvalue,
        ihes (fun e he => ih e (List.mem_cons_of_mem _ he))
        (fun f hf => hfs f (List.mem_cons_of_mem _ hf)) hrest⟩

theorem Payload.Suits.equal_of_json (hp : p.Suits tag truncated) (hq : q.Suits tag truncated)
    (hentries : ∀ es fs, p = .entries es → q = .entries fs →
      Json.EqualItems same (Json.sortedItems (entriesJson es)) (Json.sortedItems (entriesJson fs)) →
      EqualEntries same es fs)
    (h : p.json.sorted.Equal same q.json.sorted) : p.Equal same q := by
  cases hp with
  | null =>
    cases hq with
    | null => trivial
    | reference htag i => exact absurd htag (by decide)
  | boolean b =>
    cases hq with
    | boolean c => exact h
    | reference htag i => exact absurd htag (by decide)
  | number hx =>
    cases hq with
    | number hy =>
      simp only [Payload.json, Json.ofFloat, if_pos hx, if_pos hy] at h
      exact h
    | reference htag i => exact absurd htag (by decide)
  | text s =>
    cases hq with
    | text t => exact h
    | reference htag i => exact absurd htag (by decide)
  | reference htag i =>
    cases hq with
    | reference htag' k => exact Text.hexToken_injective h
    | _ => exact absurd htag (by decide)
  | cut i =>
    cases hq with
    | cut k => exact Text.hexToken_injective h
  | entries es =>
    cases hq with
    | entries fs => exact hentries es fs rfl rfl h
    | reference htag i => exact absurd htag (by decide)

/-- **The form of a regular node** is that of no other one. -/
theorem Node.Regular.equal_of_json (hn : n.Regular) (hm : m.Regular)
    (h : n.json.sorted.Equal same m.json.sorted) : n.Equal same m := by
  induction hn generalizing m with
  | mk suits halves ih =>
    cases hm with
    | mk suits' halves' =>
      obtain ⟨rfl, rfl, rfl, hpayload⟩ := Node.equal_of_members h
      refine ⟨rfl, rfl, rfl, suits.equal_of_json suits' (fun es fs hes hfs hitems => ?_) hpayload⟩
      subst hes hfs
      exact equalEntries_of_items (fun e he side m hm => ih e he side hm) halves' hitems

/-- **The form tells the node.** If what is shown of two live values, by any hosts and down to any
levels, has one JSON form, then it is one node: as doubles are, or as they compare as numbers. -/
theorem Node.form_tells_node {look : ν → Shape ν} {look' : μ → Shape μ} {v : ν} {w : μ}
    {levels levels' : Int} {name other : Option String} {n m : Node} (hv : Admissible look v)
    (hw : Admissible look' w) (hn : view? look levels name v = .ok n)
    (hm : view? look' levels' other w = .ok m) :
    (n.json.sorted = m.json.sorted → n = m) ∧
    (n.json.sorted.Equal (fun x y => (x == y) = true) m.json.sorted →
      n.Equal (fun x y => (x == y) = true) m) := by
  have htells {same : Float → Float → Prop} (h : n.json.sorted.Equal same m.json.sorted) :
      n.Equal same m :=
    (regular_of_view? hv hn).equal_of_json (regular_of_view? hw hm) h
  refine ⟨fun heq => ?_, htells⟩
  apply Node.Equal.eq
  apply htells
  rw [heq]
  exact .refl (fun _ => rfl) _

/-- The types of references matter: one that were a string would be written as a text is. -/
example (name : Option String) (i : Identity) :
    (Node.leaf name (.reference .string i : Shape ν)).json =
    (Node.leaf name (.text (Text.hexToken i) : Shape ν)).json :=
  rfl

/-! ## A loop and a chain -/

namespace Rehearsal

theorem admissible_of_all {g : ValueGraph} (h : ∀ w, (g.look w).Admissible) (v : Nat) :
    Admissible g.look v :=
  fun _ w _ => h w

/-- A table that holds itself, and a function under a number. -/
def loop : ValueGraph :=
  ⟨#[.container 16 [(1, 0), (2, 3)], .text "0x10", .number 0.5, .reference .function 16]⟩

/-- A table that looks the same from outside, with an empty table in it. -/
def chain : ValueGraph :=
  ⟨#[.container 48 [(1, 4), (2, 3)], .text "0x10", .number 0.5, .reference .function 16,
    .container 16 []]⟩

theorem loop_admissible : Admissible loop.look 0 := by
  apply admissible_of_all
  intro w
  match w with
  | 0 | 1 | _ + 4 => trivial
  | 2 => exact (by decide : Float.isFinite 0.5 = true)
  | 3 => exact .inl rfl

theorem chain_admissible : Admissible chain.look 0 := by
  apply admissible_of_all
  intro w
  match w with
  | 0 | 1 | 4 | _ + 5 => trivial
  | 2 => exact (by decide : Float.isFinite 0.5 = true)
  | 3 => exact .inl rfl

/-- One level down both have the same form, and so are the same; two levels down they are not,
and their forms differ. -/
theorem chain_told_from_loop : Admissible loop.look 0 ∧ Admissible chain.look 0 ∧
    (∃ n m, Node.view? loop.look 1 (some "t") 0 = .ok n ∧
      Node.view? chain.look 1 (some "t") 0 = .ok m ∧
      n.json.sorted = m.json.sorted ∧ n = m) ∧
    ∃ n m, Node.view? loop.look 2 (some "t") 0 = .ok n ∧
      Node.view? chain.look 2 (some "t") 0 = .ok m ∧
      n.json.sorted ≠ m.json.sorted := by
  have hloop (k : Nat) : Node.view? loop.look k (some "t") 0 =
      .ok (Node.view loop.look k (some "t") 0) := rfl
  have hchain (k : Nat) : Node.view? chain.look k (some "t") 0 =
      .ok (Node.view chain.look k (some "t") 0) := rfl
  refine ⟨loop_admissible, chain_admissible, ⟨_, _, hloop 1, hchain 1, rfl, ?_⟩,
    ⟨_, _, hloop 2, hchain 2, fun hform => ?_⟩⟩
  · exact (Node.form_tells_node loop_admissible chain_admissible (hloop 1) (hchain 1)).1 rfl
  · have heq := (Node.form_tells_node loop_admissible chain_admissible (hloop 2) (hchain 2)).1 hform
    -- the loop goes on where the chain has come to its end
    have hinside := congrArg (fun n => (n.at? [(0, .value), (0, .key)]).isSome) heq
    exact absurd hinside (by decide)

end Rehearsal

end ScriptDebug
