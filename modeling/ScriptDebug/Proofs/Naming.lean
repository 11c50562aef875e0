import Mathlib.Order.Bounds.Defs
import ScriptDebug.Proofs.Cutting
import ScriptDebug.Proofs.Fetching

/-!
# What a name means

A client may look for a variable in two ways: it evaluates its name, or it lists the variables of
the innermost frame and fetches one by its index. Both lead to the same value
(`name_means_what_is_listed`).

1. A name is no literal, but for three words (`literal?_eq_none`), and blanks or a `return` around
   an expression do not count (`Written.expressionOf_eq`).
2. The last local with a name is the one with the largest index, the first upvalue the one with the
   smallest (`valueOf_reverse_variables`, `valueOf_variables`).
3. Fields are taken from a value one after the other, until one of them fails or none is left
   (`fate_follow`).
-/

namespace ScriptDebug

theorem Node.rename_view {ν : Type} (look : ν → Shape ν) (levels : Nat)
    (name : Option String) (v : ν) :
    (Node.view look levels none v).rename name = Node.view look levels name v := by
  unfold Node.view
  split
  · rfl
  · cases look v <;> rfl

namespace Script

variable {c : Char} {e cs : List Char} {name key text : String} {v w : Value} {vs : List Variable}
  {entries : List (Value × Value)} {part : List Char} {parts : List (List Char)}
  {r : Except ScriptFailure Value}

/-! ## Names -/

theorem toNat_of_isNameChar (h : (isNameStart c || isDigit c) = true) :
    48 ≤ c.toNat ∧ c.toNat ≤ 57 ∨ 65 ≤ c.toNat ∧ c.toNat ≤ 90 ∨
    c.toNat = 95 ∨ 97 ≤ c.toNat ∧ c.toNat ≤ 122 := by
  simp only [isNameStart, isDigit, Bool.or_eq_true, Bool.and_eq_true, decide_eq_true_eq, beq_iff_eq,
    Char.le_def, UInt32.le_iff_toNat_le] at h
  rcases h with ((h | h) | rfl) | h
  · exact .inr (.inr (.inr h))
  · exact .inr (.inl h)
  · exact .inr (.inr (.inl rfl))
  · exact .inl h

theorem isNameChar_of_mem (h : isName cs = true) (hc : c ∈ cs) :
    (isNameStart c || isDigit c) = true := by
  cases cs with
  | nil => cases hc
  | cons b cs =>
    obtain ⟨hb, hcs⟩ := Bool.and_eq_true_iff.1 h
    rcases List.mem_cons.1 hc with rfl | hc
    · rw [hb]
      rfl
    · exact List.all_eq_true.1 hcs c hc

theorem not_mem_of_isName (h : isName cs = true) (hc : (isNameStart c || isDigit c) = false) :
    c ∉ cs := by
  intro hmem
  rw [isNameChar_of_mem h hmem] at hc
  cases hc

theorem isBlank_of_isName (h : isName cs = true) (hc : c ∈ cs) : Text.isBlank c = false := by
  have hbounds := toNat_of_isNameChar (isNameChar_of_mem h hc)
  simp only [Text.isBlank, Bool.or_eq_false_iff, Bool.and_eq_false_iff, decide_eq_false_iff_not,
    beq_eq_false_iff_ne]
  omega

theorem isName_cons (h : isName cs = true) : ∃ c rest, cs = c :: rest ∧ isNameStart c = true := by
  cases cs with
  | nil => cases h
  | cons c rest => exact ⟨c, rest, rfl, (Bool.and_eq_true_iff.1 h).1⟩

/-- What starts like a name is a literal only if it is one of three words. -/
theorem literal?_eq_none (hc : isNameStart c = true)
    (hword : String.ofList (c :: cs) ∉ ["nil", "true", "false"]) :
    literal? (c :: cs) = none := by
  have hbounds := toNat_of_isNameChar (c := c) (by rw [hc]; rfl)
  have hne : ∀ b : Char, c = b → 48 ≤ b.toNat ∧ b.toNat ≤ 57 ∨ 65 ≤ b.toNat ∧ b.toNat ≤ 90 ∨
      b.toNat = 95 ∨ 97 ≤ b.toNat ∧ b.toNat ≤ 122 := fun b hb => hb ▸ hbounds
  have hquote : ∀ q, q = '"' ∨ q = '\'' → unquote? q (c :: cs) = none := by
    rintro q (rfl | rfl) <;> exact if_neg fun h => absurd (hne _ h.1) (by decide)
  have hdigit : isDigit c = false := by
    simp only [isNameStart, isDigit, Bool.or_eq_true, Bool.and_eq_true,
      decide_eq_true_eq, beq_iff_eq, Bool.and_eq_false_iff, decide_eq_false_iff_not, Char.le_def,
      UInt32.le_iff_toNat_le] at hc ⊢
    rcases hc with (⟨h, -⟩ | ⟨h, -⟩) | rfl
    · exact .inr fun h' => absurd (Nat.le_trans h h') (by decide)
    · exact .inr fun h' => absurd (Nat.le_trans h h') (by decide)
    · exact .inr (by decide)
  have hpoint : (c == '.') = false := beq_eq_false_iff_ne.2 fun h => absurd (hne _ h) (by decide)
  have hnumber : number? (c :: cs) = none := by
    unfold number?
    split
    · rename_i heq
      exact absurd (hne '-' (List.cons_eq_cons.1 heq).1) (by decide)
    · rename_i heq
      obtain ⟨rfl, rfl⟩ := List.cons_eq_cons.1 heq
      rw [hdigit, hpoint]
      rfl
    · rfl
  simp only [List.mem_cons, List.not_mem_nil, or_false, not_or] at hword
  unfold literal?
  split
  · exact absurd ‹_› hword.1
  · exact absurd ‹_› hword.2.1
  · exact absurd ‹_› hword.2.2
  · rw [hquote '"' (.inl rfl), hquote '\'' (.inr rfl), hnumber]
    rfl

/-! ## Expressions -/

/-- **Written.** A text means an expression: there are blanks around it,
or a `return` and blanks in front of it. -/
def Written (e : List Char) (text : String) : Prop :=
  ∃ l r, Text.AllBlank l ∧ Text.AllBlank r ∧ (text.toList = l ++ e ++ r ∨
    ∃ m, Text.AllBlank m ∧ text.toList = l ++ ("return ".toList ++ (m ++ e)) ++ r)

theorem Written.expressionOf_eq (hw : Written (c :: cs) text)
    (htrim : Text.trimChars (c :: cs) = c :: cs) (hreturn : ¬ "return ".toList <+: c :: cs) :
    expressionOf text = c :: cs := by
  obtain ⟨l, r, hl, hr, htext | ⟨m, hm, htext⟩⟩ := hw
  · have hplain : Text.trimChars text.toList = c :: cs := by
      rw [htext, Text.trimChars_pad hl hr, htrim]
    have hnone : ¬ "return ".toList.isPrefixOf (c :: cs) = true :=
      mt List.isPrefixOf_iff_prefix.1 hreturn
    simp only [expressionOf, hplain, if_neg hnone]
  · have hbehind : Text.trimChars ("return ".toList ++ (m ++ c :: cs)) = "return ".toList ++
        (m ++ c :: cs) := by
      have happend := Text.trimChars_append (c := 'r') (by decide) (Text.isBlank_of_trimmed htrim)
        ("eturn ".toList ++ m) cs
      rw [htrim, ← List.cons_append, List.append_assoc] at happend
      exact happend
    have hplain : Text.trimChars text.toList = "return ".toList ++ (m ++ c :: cs) := by
      rw [htext, Text.trimChars_pad hl hr, hbehind]
    have hsome : "return ".toList.isPrefixOf ("return ".toList ++ (m ++ c :: cs)) = true :=
      List.isPrefixOf_iff_prefix.2 (List.prefix_append _ _)
    simp only [expressionOf, hplain, hsome, if_true]
    exact (Text.trimChars_padLeft hm (c :: cs)).trans htrim

/-- A name, and the fields taken from its value. -/
def dotted (name : String) (parts : List (List Char)) : List Char :=
  name.toList ++ parts.flatMap ('.' :: ·)

theorem not_return_prefix_dotted (hname : isName name.toList = true) (parts : List (List Char)) :
    ¬ "return ".toList <+: dotted name parts := by
  rintro ⟨x, hx⟩
  have hspace : ' ' ∉ name.toList := not_mem_of_isName hname (by decide)
  rcases List.append_eq_append_iff.1 hx.symm with ⟨rest, hreturn, hparts⟩ | ⟨rest, hlong, -⟩
  · cases rest with
    | nil =>
      rw [List.append_nil] at hreturn
      exact hspace (hreturn ▸ (by decide))
    | cons b rest =>
      have hb : b ∈ "return ".toList := by
        rw [hreturn]
        exact List.mem_append_right _ (List.mem_cons_self ..)
      cases parts with
      | nil => cases hparts
      | cons p parts =>
        rw [List.flatMap_cons, List.cons_append, List.cons_append] at hparts
        obtain rfl := (List.cons_eq_cons.1 hparts).1
        exact absurd hb (by decide)
  · refine hspace ?_
    rw [hlong]
    exact List.mem_append_left _ (by decide)

/-- **An expression of names** takes the fields from what the first one means. -/
theorem Machine.evaluate_dotted {m : Machine} {h : Handle} (hname : isName name.toList = true)
    (hword : name ∉ ["nil", "true", "false"]) (hparts : ∀ p ∈ parts, '.' ∉ p)
    (htrim : Text.trimChars (dotted name parts) = dotted name parts)
    (hw : Written (dotted name parts) text) :
    m.evaluate h text = (m.resolve h name).follow (dotted name parts) parts := by
  obtain ⟨c, rest, hcons, hc⟩ := isName_cons hname
  have hform : dotted name parts = c :: (rest ++ parts.flatMap ('.' :: ·)) := by
    rw [dotted, hcons, List.cons_append]
  have hexpression : expressionOf text = dotted name parts := by
    rw [hform] at hw htrim ⊢
    exact hw.expressionOf_eq htrim (hform ▸ not_return_prefix_dotted hname parts)
  have hpoint : '.' ∉ name.toList := not_mem_of_isName hname (by decide)
  have hliteral : literal? (dotted name parts) = none := by
    rw [hform]
    refine literal?_eq_none hc ?_
    rw [← hform]
    cases parts with
    | nil =>
      rw [dotted, List.flatMap_nil, List.append_nil, String.ofList_toList]
      exact hword
    | cons p parts =>
      -- there is a point in it
      intro hmem
      have hin : '.' ∈ (String.ofList (dotted name (p :: parts))).toList := by
        rw [String.toList_ofList, dotted, List.flatMap_cons]
        exact List.mem_append_right _ (List.mem_cons_self ..)
      simp only [List.mem_cons, List.not_mem_nil, or_false] at hmem
      rcases hmem with heq | heq | heq <;> rw [heq] at hin <;> exact absurd hin (by decide)
  unfold evaluate
  simp only [hexpression, hliteral]
  rw [dotted, Text.splitAll_joined hpoint hparts]
  simp only [hname, if_true, String.ofList_toList]

/-! ## Fields -/

/-- **Field.** The value of the first entry that has a text as its key; `nil` if none has. -/
inductive Value.HasField (entries : List (Value × Value)) (key : String) : Value → Prop
  | first {before after : List (Value × Value)} {v : Value}
      (hentries : entries = before ++ (.text key, v) :: after)
      (hbefore : ∀ e ∈ before, e.1 ≠ .text key) : HasField entries key v
  | missing (hentries : ∀ e ∈ entries, e.1 ≠ .text key) : HasField entries key .nil

/-- **Path.** One value leads to another one along names, each the name of a field of a table. -/
inductive Value.Path : Value → List (List Char) → Value → Prop
  | here (v : Value) : Path v [] v
  | field {i : Identity} {entries : List (Value × Value)} {part : List Char}
      {rest : List (List Char)} {v w : Value} (hname : isName part = true)
      (hfield : HasField entries (String.ofList part) v) (hrest : Path v rest w) :
      Path (.table i entries) (part :: rest) w

/-- **Fate** of the fields that an expression takes from a value. They lead all the way; or the
first one that fails is no name, or it is one but what it is taken from is no table. -/
inductive Value.Fate (expression : List Char) (v : Value) (parts : List (List Char)) :
    Except ScriptFailure Value → Prop
  | arrives {w : Value} (hpath : v.Path parts w) : Fate expression v parts (.ok w)
  | misspelt {before rest : List (List Char)} {part : List Char} {w : Value}
      (hparts : parts = before ++ part :: rest) (hpath : v.Path before w)
      (hname : isName part = false) :
      Fate expression v parts (.error ⟨3, s!"unexpected symbol near '{String.ofList expression}'"⟩)
  | unindexed {before rest : List (List Char)} {part : List Char} {w : Value}
      (hparts : parts = before ++ part :: rest) (hpath : v.Path before w)
      (hname : isName part = true) (htable : w.tag ≠ .table) :
      Fate expression v parts (.error ⟨2, s!"attempt to index a {w.tag.text} value"⟩)

theorem Value.isText_iff : v.isText key = true ↔ v = .text key := by
  cases v with
  | text s => rw [isText, beq_iff_eq, text.injEq]
  | _ =>
    constructor <;> intro h <;> cases h

theorem Value.hasField_field? (entries : List (Value × Value)) (key : String) :
    HasField entries key ((field? entries key).getD .nil) := by
  unfold field?
  cases hfind : entries.find? fun e => e.1.isText key with
  | none =>
    refine .missing fun e he heq => ?_
    exact List.find?_eq_none.1 hfind e he (isText_iff.2 heq)
  | some e =>
    obtain ⟨hkey, before, after, hentries, hbefore⟩ := List.find?_eq_some_iff_append.1 hfind
    obtain ⟨k, v⟩ := e
    obtain rfl : k = .text key := isText_iff.1 hkey
    refine .first hentries fun e he heq => ?_
    have hno := hbefore e he
    rw [isText_iff.2 heq] at hno
    cases hno

theorem Value.Fate.behind {i : Identity} (hname : isName part = true)
    (hfield : HasField entries (String.ofList part) v) (hf : v.Fate e parts r) :
    (Value.table i entries).Fate e (part :: parts) r := by
  cases hf with
  | arrives hpath => exact .arrives (.field hname hfield hpath)
  | misspelt hparts hpath hname' =>
    rw [hparts, ← List.cons_append]
    exact .misspelt rfl (.field hname hfield hpath) hname'
  | unindexed hparts hpath hname' htable =>
    rw [hparts, ← List.cons_append]
    exact .unindexed rfl (.field hname hfield hpath) hname' htable

/-- **Fields** are taken one after the other. -/
theorem Value.fate_follow (e : List Char) (v : Value) (parts : List (List Char)) :
    v.Fate e parts (v.follow e parts) := by
  induction parts generalizing v with
  | nil => exact .arrives (.here v)
  | cons part rest ih =>
    unfold follow
    cases hname : isName part with
    | false => exact .misspelt (List.nil_append _).symm (.here v) hname
    | true =>
      cases v with
      | table i entries => exact (ih _).behind hname (hasField_field? entries (String.ofList part))
      | _ => exact .unindexed (List.nil_append _).symm (.here _) hname (by rintro ⟨⟩)

/-! ## Variables -/

theorem valueOf_append (name : String) (l r : List Variable) :
    valueOf name (l ++ r) = (valueOf name l).or (valueOf name r) := by
  rw [valueOf, List.find?_append, Option.map_or]
  rfl

theorem getElem?_of_valueOf (hv : valueOf name vs = some v) :
    ∃ i : Nat, vs[i]? = some (name, v) ∧ ∀ j < i, ∀ w : Value, vs[j]? ≠ some (name, w) := by
  obtain ⟨⟨key, v'⟩, hfind, rfl⟩ := Option.map_eq_some_iff.1 hv
  obtain ⟨hkey, i, hi, hget, hbefore⟩ := List.find?_eq_some_iff_getElem.1 hfind
  obtain rfl : key = name := beq_iff_eq.1 hkey
  refine ⟨i, (List.getElem?_eq_getElem hi).trans (congrArg some hget), fun j hj w hw => ?_⟩
  obtain ⟨hlt, hw⟩ := List.getElem?_eq_some_iff.1 hw
  have hno := hbefore j hj
  rw [hw] at hno
  simp at hno

theorem valueOf_eq_none : valueOf name vs = none ↔ ∀ w, (name, w) ∉ vs := by
  rw [valueOf, Option.map_eq_none_iff, List.find?_eq_none]
  constructor
  · intro h w hmem
    exact h (name, w) hmem (beq_self_eq_true name)
  · rintro h ⟨key, w⟩ hmem hkey
    obtain rfl : key = name := beq_iff_eq.1 hkey
    exact h w hmem

namespace Machine

variable {m : Machine} {kind : VariableKind} {h : Handle} {frame : Nat}

theorem resolve_eq (m : Machine) (h : Handle) (name : String) :
    m.resolve h name =
    ((valueOf name ((m.variables .local h 0).reverse ++ m.variables .upvalue h 0)).or
      (m.global? name)).getD .nil := by
  unfold resolve Machine.variables
  cases m.frame? h 0 <;> rfl

/-- The first variable with a name has the smallest index. -/
theorem valueOf_variables (hv : valueOf name (m.variables kind h frame) = some v) :
    ∃ i, IsLeast {i | (⟨i, name⟩ : Slot) ∈ listing 1 (m.variables kind h frame)} i ∧
      m.variableAt? kind h frame i = some (name, v) := by
  obtain ⟨i, hi, hbefore⟩ := getElem?_of_valueOf hv
  refine ⟨i + 1, ⟨mem_listing_variables.2 ⟨v, hi⟩, fun j hj => ?_⟩, hi⟩
  obtain ⟨w, hw⟩ := mem_listing_variables.1 hj
  cases j with
  | zero => cases hw
  | succ j =>
    by_contra hlt
    exact hbefore j (by omega) w hw

theorem valueOf_reverse_variables (hv : valueOf name (m.variables kind h frame).reverse = some v) :
    ∃ i, IsGreatest {i | (⟨i, name⟩ : Slot) ∈ listing 1 (m.variables kind h frame)} i ∧
      m.variableAt? kind h frame i = some (name, v) := by
  obtain ⟨k, hk, hbefore⟩ := getElem?_of_valueOf hv
  have hlt := (List.getElem?_eq_some_iff.1 hk).1
  rw [List.length_reverse] at hlt
  have hi : m.variableAt? kind h frame ((m.variables kind h frame).length - 1 - k + 1) =
      some (name, v) := by
    rw [List.getElem?_reverse hlt] at hk
    exact hk
  refine ⟨_, ⟨mem_listing_variables.2 ⟨v, hi⟩, fun j hj => ?_⟩, hi⟩
  obtain ⟨w, hw⟩ := mem_listing_variables.1 hj
  cases j with
  | zero => exact Nat.zero_le _
  | succ j =>
    -- one behind it would come before it from the back
    have hw : (m.variables kind h frame)[j]? = some (name, w) := hw
    have hj := (List.getElem?_eq_some_iff.1 hw).1
    by_contra hgt
    refine hbefore ((m.variables kind h frame).length - 1 - j) (by omega) w ?_
    rw [List.getElem?_reverse (by omega), show (m.variables kind h frame).length - 1 -
      ((m.variables kind h frame).length - 1 - j) = j by omega]
    exact hw

theorem not_listed_of_valueOf (hv : valueOf name (m.variables kind h frame) = none) (i : Nat) :
    (⟨i, name⟩ : Slot) ∉ listing 1 (m.variables kind h frame) := by
  intro hmem
  obtain ⟨w, hw⟩ := mem_listing_variables.1 hmem
  cases i with
  | zero => cases hw
  | succ i => exact valueOf_eq_none.1 hv w (List.mem_of_getElem? hw)

end Machine

end Script

/-! ## Evaluating a name -/

namespace Debugger

variable {logic : Logic} {sink : Sink} {d : Debugger ⟨Script.host, logic, sink⟩}
  {t : ThreadId} {h : Handle} {c : ContextId} {name : String}

/-- **Meant.** A value is meant by a name on a stack, given the locals and upvalues that are listed
for the innermost frame: it is that of the local with the largest index listed under the name; if
there is none, that of the upvalue with the smallest; if there is none either, that of the global,
or `nil`. What is fetched by such an index is the value under the name. -/
inductive Meant (d : Debugger ⟨Script.host, logic, sink⟩) (t : ThreadId) (h : Handle)
    (name : String) (locals upvalues : List Slot) : Script.Value → Prop
  | latest {i : Nat} {v : Script.Value} (hlast : IsGreatest {i | (⟨i, name⟩ : Slot) ∈ locals} i)
      (hvalue : Script.Machine.variableAt? d.host .local h 0 i = some (name, v))
      (hfetch : d.Finishes t (.fetchVariable .local h 0 i 1) d
        (.node (.ok ((Node.view Script.Value.look 1 none v).rename (some name))))) :
        Meant d t h name locals upvalues v
  | first {i : Nat} {v : Script.Value} (hlocals : ∀ i, (⟨i, name⟩ : Slot) ∉ locals)
      (hfirst : IsLeast {i | (⟨i, name⟩ : Slot) ∈ upvalues} i)
      (hvalue : Script.Machine.variableAt? d.host .upvalue h 0 i = some (name, v))
      (hfetch : d.Finishes t (.fetchVariable .upvalue h 0 i 1) d
        (.node (.ok ((Node.view Script.Value.look 1 none v).rename (some name))))) :
        Meant d t h name locals upvalues v
  | global (hlocals : ∀ i, (⟨i, name⟩ : Slot) ∉ locals)
      (hupvalues : ∀ i, (⟨i, name⟩ : Slot) ∉ upvalues) :
      Meant d t h name locals upvalues ((Script.Machine.global? d.host name).getD .nil)

theorem ShownPaused.fetches_renamed (hp : d.ShownPaused h c) (ht : t < d.threads.length)
    {kind : VariableKind} {i : Nat} {v : Script.Value}
    (hv : Script.Machine.variableAt? d.host kind h 0 i = some (name, v)) :
    d.Finishes t (.fetchVariable kind h 0 i 1) d
      (.node (.ok ((Node.view Script.Value.look 1 none v).rename (some name)))) := by
  rw [Node.rename_view]
  exact hp.fetches_view ht hv (by decide)

/-- What the machine resolves a name to is meant by it. -/
theorem ShownPaused.meant (hp : d.ShownPaused h c) (ht : t < d.threads.length) (name : String) :
    d.Meant t h name (listing 1 (Script.Machine.variables d.host .local h 0))
      (listing 1 (Script.Machine.variables d.host .upvalue h 0))
        (Script.Machine.resolve d.host h name) := by
  rw [Script.Machine.resolve_eq d.host h name, Script.valueOf_append]
  cases hlocal : Script.valueOf name (Script.Machine.variables d.host .local h 0).reverse with
  | some v =>
    obtain ⟨i, hlast, hvalue⟩ := Script.Machine.valueOf_reverse_variables hlocal
    exact .latest hlast hvalue (hp.fetches_renamed ht hvalue)
  | none =>
    have hnone : Script.valueOf name (Script.Machine.variables d.host .local h 0) = none :=
      Script.valueOf_eq_none.2 fun w hw => Script.valueOf_eq_none.1 hlocal w (List.mem_reverse.2 hw)
    have hlocals := Script.Machine.not_listed_of_valueOf hnone
    cases hupvalue : Script.valueOf name (Script.Machine.variables d.host .upvalue h 0) with
    | some v =>
      obtain ⟨i, hfirst, hvalue⟩ := Script.Machine.valueOf_variables hupvalue
      exact .first hlocals hfirst hvalue (hp.fetches_renamed ht hvalue)
    | none => exact .global hlocals (Script.Machine.not_listed_of_valueOf hupvalue)

theorem ShownPaused.evaluates (hp : d.ShownPaused h c) (ht : t < d.threads.length) {text : String}
    {r : Except ScriptFailure Script.Value} (hr : Script.Machine.evaluate d.host h text = r) :
    d.Finishes t (.evaluate h text) d
      (.node ((r.map (Node.view Script.Value.look 1 none)).mapError .script)) := by
  subst hr
  exact hp.finishes ht (.evaluate h text) rfl

/-- **A name means what is listed under it.** Of an execution that is shown as paused, a client
lists the locals and the upvalues of the innermost frame. Evaluating a name, other than the three
words that are literals, with blanks around it or a `return` in front of it, shows the value that is
meant by the name in these listings, without a name. In an expression of names with points between
them the others are fields, taken one after the other from that value: the first one that is no
name, or is taken from what is no table, decides the failure; if there is none, the value that they
lead to is shown. -/
theorem name_means_what_is_listed (ht : t < d.threads.length) (hp : d.ShownPaused h c)
    (hname : Script.isName name.toList = true) (hword : name ∉ ["nil", "true", "false"]) :
    ∃ (locals upvalues : List Slot) (v : Script.Value),
      d.Finishes t (.listVariables .local h 0) d (.slots (.ok locals)) ∧
      d.Finishes t (.listVariables .upvalue h 0) d (.slots (.ok upvalues)) ∧
      d.Meant t h name locals upvalues v ∧
      (∀ text, Script.Written name.toList text →
        d.Finishes t (.evaluate h text) d (.node (.ok (Node.view Script.Value.look 1 none v)))) ∧
      ∀ parts text, (∀ p ∈ parts, '.' ∉ p) →
        Text.trimChars (Script.dotted name parts) = Script.dotted name parts →
        Script.Written (Script.dotted name parts) text →
        ∃ r, v.Fate (Script.dotted name parts) parts r ∧
          d.Finishes t (.evaluate h text) d
            (.node ((r.map (Node.view Script.Value.look 1 none)).mapError .script)) := by
  have hdotted : ∀ parts text, (∀ p ∈ parts, '.' ∉ p) →
      Text.trimChars (Script.dotted name parts) = Script.dotted name parts →
      Script.Written (Script.dotted name parts) text → d.Finishes t (.evaluate h text) d
        (.node ((((Script.Machine.resolve d.host h name).follow
          (Script.dotted name parts) parts).map (Node.view Script.Value.look 1 none)).mapError
          .script)) :=
    fun parts text hparts htrim hw =>
      hp.evaluates ht (Script.Machine.evaluate_dotted hname hword hparts htrim hw)
  refine ⟨_, _, _, hp.lists ht .local 0, hp.lists ht .upvalue 0, hp.meant ht name,
    fun text hw => ?_, fun parts text hparts htrim hw =>
      ⟨_, Script.Value.fate_follow _ _ parts, hdotted parts text hparts htrim hw⟩⟩
  have hplain : Script.dotted name [] = name.toList := List.append_nil _
  have htrim : Text.trimChars name.toList = name.toList :=
    Text.trimChars_eq_self fun c hc => Script.isBlank_of_isName hname hc
  exact hdotted [] text (List.forall_mem_nil _) (hplain.symm ▸ htrim) (hplain.symm ▸ hw)

end Debugger

namespace Rehearsal

/-- The client that pauses the second function evaluates its upvalue, and a field of it, which is
none as the upvalue is a number. -/
theorem depth_evaluated :
    let d := gameDebugger.instant inspecting 71
    (∃ v, Script.Machine.variableAt? d.host .upvalue ⟨1⟩ 0 1 = some ("depth", v) ∧
      d.Finishes 0 (.evaluate ⟨1⟩ " return  depth") d
      (.node (.ok (Node.view Script.Value.look 1 none v)))) ∧
      ∃ f, d.Finishes 0 (.evaluate ⟨1⟩ "depth.x") d (.node (.error (.script f))) ∧ f.code = 2 := by
  intro d
  have ht : 0 < d.threads.length := by decide +kernel
  have hp : d.ShownPaused ⟨1⟩ 0 := inspecting_shown 71 (by decide) (by decide)
  obtain ⟨locals, upvalues, v, hlocals, hupvalues, hmeant, hplain, hdotted⟩ :=
    Debugger.name_means_what_is_listed ht hp
      (show Script.isName "depth".toList = true by decide) (by decide)
  have hl : ScriptDebug.listing 1 (Script.Machine.variables d.host .local ⟨1⟩ 0) = [⟨1, "x"⟩] := by
    decide +kernel
  have hu : ScriptDebug.listing 1 (Script.Machine.variables d.host .upvalue ⟨1⟩ 0) =
      [⟨1, "depth"⟩] := by decide +kernel
  have hlocals := hlocals.unique (hp.lists ht .local 0) ht
  have hupvalues := hupvalues.unique (hp.lists ht .upvalue 0) ht
  rw [hl] at hlocals
  rw [hu] at hupvalues
  cases hlocals
  cases hupvalues
  have htag : (Script.Machine.variableAt? d.host .upvalue ⟨1⟩ 0 1).map (·.2.tag) =
      some .number := by decide +kernel
  have hvalue : Script.Machine.variableAt? d.host .upvalue ⟨1⟩ 0 1 = some ("depth", v) := by
    cases hmeant with
    | latest hlast => exact absurd hlast.1 (by simp)
    | @first i _ _ hfirst hvalue =>
      obtain rfl : i = 1 := by simpa using hfirst.1
      exact hvalue
    | global _ hnone => exact (hnone 1 (List.mem_singleton_self _)).elim
  refine ⟨⟨v, hvalue, hplain _ ⟨[' '], [], by decide, by decide, .inr ⟨[' '], by decide, rfl⟩⟩⟩, ?_⟩
  rw [hvalue] at htag
  obtain ⟨r, hfate, hfield⟩ := hdotted [['x']] "depth.x" (by decide) (by decide)
    ⟨[], [], by decide, by decide, .inl (by decide)⟩
  cases hfate with
  | arrives hpath =>
    cases hpath with
    | field => cases htag
  | @misspelt before _ part _ hparts _ hname =>
    have hmem : part ∈ [['x']] := by
      rw [hparts]
      exact List.mem_append_right before (List.mem_cons_self ..)
    rw [List.mem_singleton.1 hmem] at hname
    cases hname
  | unindexed => exact ⟨_, hfield, rfl⟩

end Rehearsal

end ScriptDebug
