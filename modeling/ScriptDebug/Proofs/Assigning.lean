import ScriptDebug.Proofs.Arrivals
import ScriptDebug.Proofs.Effects
import ScriptDebug.Proofs.Naming

/-!
# Loading a file is all or nothing

A script file is read line by line, and nothing is assigned before all of its lines are read
(`load_all_or_nothing`).

1. What counts of a line sets a global if it is a name, an equals sign and a literal
   (`assignment?_eq_some_iff`).
2. Reading goes through the lines up to the first one that is neither idle nor sets a global, and
   tells its number (`assignmentsFrom_of_illegible`).
3. Of the assignments of one name the last one wins, and no other global changes
   (`global?_assignAll`).
-/

namespace ScriptDebug

namespace Script

variable {name : String} {v w : Value} {line : List Char}
  {lines before after : List (List Char)} {m : Machine} {h : Handle} {path text : String}

/-! ## Lines -/

/-- **Idle.** Nothing counts of a line: it is blank up to its comment. -/
def Idle (line : List Char) : Prop := contentOf line = []

/-- **Sets.** What counts of a line is a name, an equals sign and a literal,
with any blanks between them. -/
def Sets (line : List Char) (name : String) (v : Value) : Prop :=
  ∃ l r, contentOf line = l ++ '=' :: r ∧ Text.trimChars l = name.toList ∧
    isName name.toList = true ∧
    literal? (Text.trimChars r) = some v

/-- **Legible.** A line is idle or sets a global. -/
def Legible (line : List Char) : Prop := Idle line ∨ ∃ name v, Sets line name v

/-- **Last sets.** Of some lines, the last one that sets a global sets it to a value. -/
def LastSets (lines : List (List Char)) (name : String) (v : Value) : Prop :=
  ∃ before line after, lines = before ++ line :: after ∧ Sets line name v ∧
    ∀ l ∈ after, ∀ w, ¬ Sets l name w

/-- What counts of the lines of a text, without those that are idle. -/
def contents (text : String) : List (List Char) := ((Text.lines text).map contentOf).filter (· ≠ [])

/-- **An assignment** is what a line sets. -/
theorem assignment?_eq_some_iff :
    assignment? (contentOf line) = some (name, v) ↔ Sets line name v := by
  constructor
  · intro hsome
    unfold assignment? at hsome
    obtain ⟨⟨l, r⟩, hcut, hsome⟩ := Option.bind_eq_some_iff.1 hsome
    simp only at hsome
    split at hsome
    · rename_i hname
      obtain ⟨v', hv, heq⟩ := Option.bind_eq_some_iff.1 hsome
      cases heq
      rw [Sets, String.toList_ofList]
      exact ⟨l, r, (Text.splitOnce_eq_some hcut).1, rfl, hname, hv⟩
    · cases hsome
  · rintro ⟨l, r, hcontent, hl, hname, hv⟩
    -- an equals sign before this one would be in the name
    have hsep : '=' ∉ l := fun hmem =>
      not_mem_of_isName hname (by decide) (hl ▸ Text.mem_trimChars (by decide) hmem)
    unfold assignment?
    rw [hcontent, Text.splitOnce_append hsep]
    simp only [Option.bind_eq_bind, Option.bind_some, hl, hname, hv, if_true, String.ofList_toList]
    rfl

theorem assignment?_nil : assignment? [] = none := rfl

theorem legible_iff :
    Legible line ↔ contentOf line = [] ∨ (assignment? (contentOf line)).isSome = true := by
  refine or_congr Iff.rfl ?_
  rw [Option.isSome_iff_exists]
  constructor
  · rintro ⟨name, v, hs⟩
    exact ⟨(name, v), assignment?_eq_some_iff.2 hs⟩
  · rintro ⟨⟨name, v⟩, hs⟩
    exact ⟨name, v, assignment?_eq_some_iff.1 hs⟩

instance (line : List Char) : Decidable (Legible line) := decidable_of_iff _ legible_iff.symm

/-! ## Reading -/

/-- The assignments that lines make. -/
def settings (lines : List (List Char)) : List Variable :=
  lines.filterMap fun line => assignment? (contentOf line)

theorem settings_cons (line : List Char) (lines : List (List Char)) :
    settings (line :: lines) = (assignment? (contentOf line)).toList ++ settings lines := by
  rw [settings, List.filterMap_cons]
  cases assignment? (contentOf line) <;> rfl

theorem mem_settings : (name, v) ∈ settings lines ↔ ∃ line ∈ lines, Sets line name v := by
  simp only [settings, List.mem_filterMap, assignment?_eq_some_iff]

theorem assignmentsFrom_cons (hline : Legible line) (n : Nat) (rest : List (List Char)) :
    assignmentsFrom n (line :: rest) =
      (assignmentsFrom (n + 1) rest).map ((assignment? (contentOf line)).toList ++ ·) := by
  rcases legible_iff.1 hline with hidle | hset
  · simp only [assignmentsFrom, hidle, List.isEmpty_nil, if_true, assignment?_nil,
      Option.toList_none, List.nil_append]
    cases assignmentsFrom (n + 1) rest <;> rfl
  · obtain ⟨x, hx⟩ := Option.isSome_iff_exists.1 hset
    have hcontent : (contentOf line).isEmpty = false := by
      cases hc : contentOf line with
      | nil =>
        rw [hc] at hx
        cases hx
      | cons => rfl
    simp only [assignmentsFrom, hcontent, hx]
    rfl

/-- **Legible lines** are read to their end. -/
theorem assignmentsFrom_of_legible (hlines : ∀ line ∈ lines, Legible line) (n : Nat) :
    assignmentsFrom n lines = .ok (settings lines) := by
  induction lines generalizing n with
  | nil => rfl
  | cons line rest ih =>
    obtain ⟨hline, hrest⟩ := List.forall_mem_cons.1 hlines
    rw [assignmentsFrom_cons hline, ih hrest, settings_cons]
    rfl

/-- **The first line that is not legible** stops the reading, with its number. -/
theorem assignmentsFrom_of_illegible (hbefore : ∀ l ∈ before, Legible l)
    (hline : ¬ Legible line) (n : Nat) :
    assignmentsFrom n (before ++ line :: after) = .error (before.length + n, contentOf line) := by
  induction before generalizing n with
  | nil =>
    obtain ⟨hidle, hset⟩ := not_or.1 (mt legible_iff.2 hline)
    have hcontent : (contentOf line).isEmpty = false :=
      Bool.eq_false_iff.2 (mt List.isEmpty_iff.1 hidle)
    simp only [List.nil_append, assignmentsFrom, hcontent, Option.not_isSome_iff_eq_none.1 hset,
      List.length_nil, Nat.zero_add]
    rfl
  | cons l before ih =>
    obtain ⟨hl, hrest⟩ := List.forall_mem_cons.1 hbefore
    rw [List.cons_append, assignmentsFrom_cons hl, ih hrest, List.length_cons, Nat.add_assoc,
      Nat.add_comm 1]
    rfl

theorem exists_first_illegible (h : ∃ line ∈ lines, ¬ Legible line) :
    ∃ before line after, lines = before ++ line :: after ∧ (∀ l ∈ before, Legible l) ∧
      ¬ Legible line := by
  obtain ⟨bad, hmem, hbad⟩ := h
  cases hfind : lines.find? fun line => decide (¬ Legible line) with
  | none => exact absurd (decide_eq_true hbad) (List.find?_eq_none.1 hfind bad hmem)
  | some line =>
    obtain ⟨hline, before, after, hsplit, hbefore⟩ := List.find?_eq_some_iff_append.1 hfind
    exact ⟨before, line, after, hsplit, fun l hl => by simpa using hbefore l hl,
      of_decide_eq_true hline⟩

/-! ## Assigning -/

/-- **The last assignment** of a name wins, and a name that is not assigned keeps its value. -/
theorem Machine.global?_assignAll (m : Machine) (vs : List Variable) (name : String) :
    (m.assignAll vs).global? name = (valueOf name vs.reverse).or (m.global? name) := by
  induction vs generalizing m with
  | nil => rfl
  | cons x vs ih =>
    obtain ⟨key, w⟩ := x
    rw [assignAll, List.foldl_cons, ← assignAll, ih, List.reverse_cons, valueOf_append,
      Option.or_assoc]
    congr 1
    by_cases hkey : key = name
    · subst hkey
      simp only [assign, global?, Ascending.get?_put_self, valueOf, List.find?_cons,
        beq_self_eq_true]
      rfl
    · have hkey' : (key == name) = false := beq_eq_false_iff_ne.2 hkey
      simp only [assign, global?, Ascending.get?_put_ne (Ne.symm hkey), valueOf,
        List.find?_cons, hkey']
      rfl

theorem valueOf_settings_of_not_sets (hno : ∀ line ∈ lines, ∀ v, ¬ Sets line name v) :
    valueOf name (settings lines).reverse = none := by
  refine valueOf_eq_none.2 fun w hmem => ?_
  obtain ⟨line, hline, hsets⟩ := mem_settings.1 (List.mem_reverse.1 hmem)
  exact hno line hline w hsets

theorem LastSets.valueOf_settings (hlast : LastSets lines name v) :
    valueOf name (settings lines).reverse = some v := by
  obtain ⟨before, line, after, rfl, hsets, hafter⟩ := hlast
  have hsplit : settings (before ++ line :: after) = settings before ++
      (name, v) :: settings after := by
    simp only [settings, List.filterMap_append, List.filterMap_cons,
      assignment?_eq_some_iff.2 hsets]
  rw [hsplit, List.reverse_append, List.reverse_cons, List.append_assoc, valueOf_append,
    valueOf_settings_of_not_sets hafter, valueOf_append]
  simp only [valueOf, List.find?_cons, beq_self_eq_true]
  rfl

/-! ## Idle lines -/

theorem settings_eq_contents (text : String) :
    settings (Text.lines text) = (contents text).filterMap assignment? := by
  rw [contents, List.filterMap_filter, List.filterMap_map, settings]
  congr 1
  funext line
  by_cases hidle : contentOf line = []
  · simp only [Function.comp_apply, hidle, assignment?_nil]
    rfl
  · simp [hidle]

theorem legible_iff_contents (text : String) :
    (∀ line ∈ Text.lines text, Legible line) ↔
      ∀ content ∈ contents text, (assignment? content).isSome = true := by
  simp only [contents, List.mem_filter, List.mem_map, legible_iff, decide_eq_true_eq]
  constructor
  · rintro h _ ⟨⟨line, hline, rfl⟩, hne⟩
    exact (h line hline).resolve_left hne
  · intro h line hline
    by_cases hidle : contentOf line = []
    · exact .inl hidle
    · exact .inr (h _ ⟨⟨line, hline, rfl⟩, hidle⟩)

/-! ## Loading -/

namespace Machine

theorem load_of_legible (hknows : m.knows h = true) (hread : m.files.readText path = .ok text)
    (hlines : ∀ line ∈ Text.lines text, Legible line) :
    m.load h path = (m.assignAll (settings (Text.lines text)), .ok ()) := by
  simp only [load, hknows, Bool.not_true, Bool.false_eq_true, if_false, hread, assignments,
    assignmentsFrom_of_legible hlines]

theorem load_of_illegible (hknows : m.knows h = true) (hread : m.files.readText path = .ok text)
    (hsplit : Text.lines text = before ++ line :: after) (hbefore : ∀ l ∈ before, Legible l)
    (hline : ¬ Legible line) :
    m.load h path = (m, .error
      ⟨3, s!"{path}:{before.length + 1}: unexpected symbol near '{String.ofList (contentOf line)}'"⟩) := by
  simp only [load, hknows, Bool.not_true, Bool.false_eq_true, if_false, hread, assignments, hsplit,
    assignmentsFrom_of_illegible hbefore hline]

theorem load_of_exists_illegible (hknows : m.knows h = true)
    (hread : m.files.readText path = .ok text) (hbad : ∃ line ∈ Text.lines text, ¬ Legible line) :
    ∃ f, m.load h path = (m, .error f) ∧ f.code = 3 := by
  obtain ⟨before, line, after, hsplit, hbefore, hline⟩ := exists_first_illegible hbad
  exact ⟨_, load_of_illegible hknows hread hsplit hbefore hline, rfl⟩

/-- A readable file loads if and only if all of its lines are legible. -/
theorem load_eq_ok_iff (hknows : m.knows h = true) (hread : m.files.readText path = .ok text) :
    (m.load h path).2 = .ok () ↔ ∀ line ∈ Text.lines text, Legible line := by
  constructor
  · intro hok
    by_contra hno
    obtain ⟨f, hf, -⟩ := load_of_exists_illegible hknows hread (by simpa using hno)
    rw [hf] at hok
    cases hok
  · intro hlines
    rw [load_of_legible hknows hread hlines]

theorem global?_load (hknows : m.knows h = true) (hread : m.files.readText path = .ok text)
    (hlines : ∀ line ∈ Text.lines text, Legible line) (name : String) :
    (m.load h path).1.global? name = (valueOf name (settings (Text.lines text)).reverse).or
      (m.global? name) := by
  rw [load_of_legible hknows hread hlines]
  exact global?_assignAll ..

/-- Files of which the same lines count load alike. -/
theorem load_eq_of_contents {other text' : String} (hknows : m.knows h = true)
    (hread : m.files.readText path = .ok text) (hother : m.files.readText other = .ok text')
    (hcontents : contents text' = contents text) :
    (m.load h other).1 = (m.load h path).1 ∧
    ((m.load h other).2 = .ok () ↔ (m.load h path).2 = .ok ()) := by
  have halike : (∀ line ∈ Text.lines text', Legible line) ↔
      ∀ line ∈ Text.lines text, Legible line := by
    rw [legible_iff_contents, legible_iff_contents, hcontents]
  refine ⟨?_,
    (load_eq_ok_iff hknows hother).trans (halike.trans (load_eq_ok_iff hknows hread).symm)⟩
  by_cases hlines : ∀ line ∈ Text.lines text, Legible line
  · rw [load_of_legible hknows hread hlines, load_of_legible hknows hother (halike.2 hlines),
      settings_eq_contents, settings_eq_contents, hcontents]
  · obtain ⟨f, hf, -⟩ := load_of_exists_illegible hknows hread (by simpa using hlines)
    obtain ⟨f', hf', -⟩ :=
      load_of_exists_illegible hknows hother (by simpa using mt halike.1 hlines)
    rw [hf, hf']

/-- **All or nothing.** Loading a file on an execution changes nothing but globals, and nothing at
all if it fails; it fails for an execution that is not there, and for a file that cannot be read. A
readable file loads if and only if each of its lines is legible, and fails with code 3 otherwise;
the message tells the number of the first line that is not, counted from one, and what counts of it.
When it loads, the last line that sets a global leaves its value there, and a global that no line
sets is as before. Two files of which the same lines count, idle ones left out, load alike. -/
theorem load_all_or_nothing (m : Machine) (h : Handle) (path : String) :
    let m' := (m.load h path).1
    let r := (m.load h path).2
    m' = { m with globals := m'.globals } ∧
      (∀ f, r = .error f → m' = m) ∧
      (m.knows h = false → r = .error ⟨2, s!"no execution {h}"⟩) ∧
      (∀ e, m.knows h = true → m.files.readText path = .error e →
        r = .error ⟨6, s!"cannot open {path}: {e.message}"⟩) ∧
      ∀ text, m.knows h = true → m.files.readText path = .ok text →
        (r = .ok () ↔ ∀ line ∈ Text.lines text, Legible line) ∧
        ((∃ f, r = .error f ∧ f.code = 3) ↔ ∃ line ∈ Text.lines text, ¬ Legible line) ∧
        (∀ before line after, Text.lines text = before ++ line :: after →
          (∀ l ∈ before, Legible l) → ¬ Legible line → r = .error
            ⟨3, s!"{path}:{before.length + 1}: unexpected symbol near '{String.ofList (contentOf line)}'"⟩) ∧
        (r = .ok () → ∀ name, (∀ v, LastSets (Text.lines text) name v → m'.global? name = some v) ∧
          ((∀ line ∈ Text.lines text, ∀ v, ¬ Sets line name v) →
            m'.global? name = m.global? name)) ∧
        ∀ other text', m.files.readText other = .ok text' → contents text' = contents text →
          (m.load h other).1 = m' ∧ ((m.load h other).2 = .ok () ↔ r = .ok ()) := by
  intro m' r
  refine ⟨m.load_eq h path, fun f hf => (load_of_error hf).2, fun hknows => ?_,
    fun e hknows hread => ?_, fun text hknows hread => ⟨load_eq_ok_iff hknows hread, ⟨?_, ?_⟩,
      fun before line after hsplit hbefore hline => ?_, fun hok name => ?_,
      fun other text' hother hcontents => ?_⟩⟩
  · simp only [r, load, hknows, Bool.not_false, if_true]
  · simp only [r, load, hknows, Bool.not_true, Bool.false_eq_true, if_false, hread]
  · rintro ⟨f, hf, -⟩
    by_contra hno
    have hok : r = .ok () := (load_eq_ok_iff hknows hread).2 (by simpa using hno)
    rw [hok] at hf
    cases hf
  · intro hbad
    obtain ⟨f, hf, hcode⟩ := load_of_exists_illegible hknows hread hbad
    exact ⟨f, congrArg Prod.snd hf, hcode⟩
  · exact congrArg Prod.snd (load_of_illegible hknows hread hsplit hbefore hline)
  · have hglobal := global?_load hknows hread ((load_eq_ok_iff hknows hread).1 hok) name
    constructor
    · intro v hlast
      rw [hglobal, hlast.valueOf_settings]
      rfl
    · intro hno
      rw [hglobal, valueOf_settings_of_not_sets hno]
      rfl
  · exact load_eq_of_contents hknows hread hother hcontents

end Machine

end Script

theorem Files.readText_of_find {files : Files} {path text : String}
    (hfind : files.find? path = .ok (.file (Wire.ofText text))) :
    files.readText path = .ok text := by
  have htext : Wire.text? (Wire.ofText text) = some text := Wire.text?_eq_some.2 rfl
  simp only [readText, hfind, htext, bind, Except.bind]
  rfl

namespace Rehearsal

/-- A machine with one execution, over a tree of two files. -/
def filedMachine (one two : String) : Script.Machine :=
  { gameMachine with
    files :=
      ⟨#[.directory [(['a'], 1), (['b'], 2)], .file (Wire.ofText one), .file (Wire.ofText two)]⟩ }

theorem filedMachine_one (one two : String) : (filedMachine one two).files.readText "a" = .ok one :=
  Files.readText_of_find rfl

theorem filedMachine_two (one two : String) : (filedMachine one two).files.readText "b" = .ok two :=
  Files.readText_of_find rfl

/-- One file loads, and the last of its assignments wins;
the other one has a second line that assigns nothing. -/
theorem file_loaded :
    let m := filedMachine "x = nil -- first\n\nx = true" "x = false\n x"
    (m.load ⟨1⟩ "a").2 = .ok () ∧ (m.load ⟨1⟩ "a").1.global? "x" = some (.boolean true) ∧
      (m.load ⟨1⟩ "b").2 = .error ⟨3, "b:2: unexpected symbol near 'x'"⟩ ∧
      (m.load ⟨1⟩ "b").1 = m := by
  intro m
  have hknows : m.knows ⟨1⟩ = true := by decide +kernel
  obtain ⟨-, -, -, -, ha⟩ := Script.Machine.load_all_or_nothing m ⟨1⟩ "a"
  obtain ⟨hiffa, -, -, hglobals, -⟩ := ha _ hknows (filedMachine_one ..)
  obtain ⟨-, hfails, -, -, hb⟩ := Script.Machine.load_all_or_nothing m ⟨1⟩ "b"
  obtain ⟨-, -, hmessage, -, -⟩ := hb _ hknows (filedMachine_two ..)
  have hok := hiffa.2 (by decide +kernel)
  have hlast : Script.LastSets (Text.lines "x = nil -- first\n\nx = true") "x" (.boolean true) :=
    ⟨["x = nil -- first".toList, []], "x = true".toList, [], by decide +kernel,
      ⟨"x ".toList, " true".toList, by decide, by decide, by decide, rfl⟩, List.forall_mem_nil _⟩
  have hbad :=
    hmessage ["x = false".toList] " x".toList [] (by decide +kernel) (by decide +kernel)
      (by decide +kernel)
  exact ⟨hok, (hglobals hok "x").1 _ hlast, hbad, hfails _ hbad⟩

end Rehearsal

end ScriptDebug
