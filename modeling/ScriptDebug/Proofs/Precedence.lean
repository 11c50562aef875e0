import ScriptDebug.Proofs.Edits

/-!
# Which breakpoint is found

An event may hit several of the breakpoints that are set. The one that names the running file just
as the event does goes first (`match?_of_exact`); else it is the first in the listing that is hit
(`match?_eq_find?`). So something is found if and only if something listed is hit, and setting more
breakpoints never loses a hit (`finds_what_is_hit`).

Since whole parts of a path are compared, a breakpoint that names a file at all stops in files of
that name only (`stops_in_namesakes`). An empty name has no parts, and every path ends with none:
such a breakpoint stops at its line in every file (`nameless_hits`).
-/

namespace ScriptDebug

/-! ## Paths -/

namespace Text

variable {path tail : String}

theorem pathPart?_isSome {cs : List Char} (hne : cs ≠ []) (hdot : cs ≠ ['.']) :
    (pathPart? cs).isSome = true := by
  unfold pathPart?
  split
  · exact absurd rfl hne
  · exact absurd rfl hdot
  · rfl
  · rfl

/-- **Only the empty path** has no parts. -/
theorem pathParts_eq_nil : pathParts path = [] ↔ path = "" := by
  constructor
  · intro hnil
    by_contra hne
    obtain ⟨c, cs, hcs⟩ := List.exists_cons_of_ne_nil (mt String.toList_eq_nil_iff.1 hne)
    unfold pathParts at hnil
    rw [hcs] at hnil
    by_cases hc : c = '/'
    · subst hc
      cases hnil
    · -- the first segment starts with `c`: it is a leading dot, or it stands for a part
      obtain ⟨first, rest, hsplit⟩ : ∃ first rest, splitAll '/' (c :: cs) =
          (c :: first) :: rest := by
        unfold splitAll
        rw [if_neg hc]
        split
        · exact ⟨[], [], rfl⟩
        · exact ⟨_, _, rfl⟩
      rw [hsplit] at hnil
      by_cases hdot : c :: first = ['.']
      · rw [hdot] at hnil
        simp [hc] at hnil
      · obtain ⟨part, hpart⟩ :=
          Option.isSome_iff_exists.1 (pathPart?_isSome (List.cons_ne_nil c first) hdot)
        simp [hc, hdot, hpart] at hnil
  · rintro rfl
    rfl

theorem getLast?_of_pathEndsWith (h : pathEndsWith path tail = true) (hne : tail ≠ "") :
    ∃ part, (pathParts tail).getLast? = some part ∧ (pathParts path).getLast? = some part := by
  obtain ⟨front, hfront⟩ := List.isSuffixOf_iff_suffix.1 h
  have hparts : pathParts tail ≠ [] := mt pathParts_eq_nil.1 hne
  refine ⟨(pathParts tail).getLast hparts, List.getLast?_eq_some_getLast hparts, ?_⟩
  rw [← hfront, List.getLast?_append_of_ne_nil _ hparts, List.getLast?_eq_some_getLast hparts]

end Text

/-! ## Hits -/

namespace Breakpoint

variable {e : Hook.Event} {file name : String} {line : Int}

theorem hits_line_iff : (Breakpoint.line file line).hits e = true ↔ e.kind = .line ∧ e.line = line ∧
    ∃ path, e.source = "@" ++ path ∧ Text.pathParts file <:+ Text.pathParts path := by
  rw [hits_line]
  simp only [Hook.Event.file?_eq_some, Text.pathEndsWith, List.isSuffixOf_iff_suffix]

/-- **A breakpoint without a file name** is hit at its line in every file. -/
theorem nameless_hits :
    (Breakpoint.line "" line).hits e = true ↔
    e.kind = .line ∧ e.line = line ∧ ∃ path, e.source = "@" ++ path := by
  rw [hits_line_iff, Text.pathParts_eq_nil.2 rfl]
  simp only [List.nil_suffix, and_true]

end Breakpoint

namespace BreakpointTable

variable {table : BreakpointTable} {e : Hook.Event} {b : Breakpoint} {edits : List Edit}
  {path file : String} {line : Int}

/-! ## The first hit -/

theorem find?_hits_of_unique (b : Breakpoint) {bs : List Breakpoint}
    (h : ∀ c ∈ bs, c.hits e = true → c = b) :
    bs.find? (·.hits e) = if b ∈ bs ∧ b.hits e = true then some b else none := by
  cases hfind : bs.find? (·.hits e) with
  | none =>
    rw [if_neg]
    rintro ⟨hmem, hit⟩
    exact List.find?_eq_none.1 hfind b hmem hit
  | some c =>
    have hmem := List.mem_of_find?_eq_some hfind
    have hit := List.find?_some hfind
    obtain rfl := h c hmem hit
    rw [if_pos ⟨hmem, hit⟩]

theorem find?_lines_eq_none (h : ∀ path, e.kind = .line → e.file? ≠ some path)
    (files : List (String × List Int)) :
    (files.flatMap fun (file, lines) => lines.map (Breakpoint.line file)).find?
      (·.hits e) = none := by
  rw [List.find?_eq_none]
  intro c hmem hit
  obtain ⟨entry, -, hmem⟩ := List.mem_flatMap.1 hmem
  obtain ⟨n, -, rfl⟩ := List.mem_map.1 hmem
  obtain ⟨hk, -, path, hfile, -⟩ := Breakpoint.hits_line.1 hit
  exact h path hk hfile

/-- The first line that is hit is that of the first file that has it and ends the path. -/
theorem find?_lines (hk : e.kind = .line) (hfile : e.file? = some path)
    (files : List (String × List Int)) :
    (files.flatMap fun (file, lines) => lines.map (Breakpoint.line file)).find? (·.hits e) =
      (files.find? fun (file, lines) => lines.contains e.line && Text.pathEndsWith path file).map
        fun (file, _) => .line file e.line := by
  induction files with
  | nil => rfl
  | cons entry files ih =>
    obtain ⟨file, lines⟩ := entry
    -- of one file, only the line of the event may be hit
    have hone : ∀ c ∈ lines.map (Breakpoint.line file), c.hits e = true →
        c = .line file e.line := by
      intro c hc hit
      obtain ⟨n, -, rfl⟩ := List.mem_map.1 hc
      rw [(Breakpoint.hits_line.1 hit).2.1]
    have hhits : (Breakpoint.line file e.line).hits e = Text.pathEndsWith path file := by
      simp [Breakpoint.hits, hk, hfile]
    rw [List.flatMap_cons, List.find?_append, find?_hits_of_unique _ hone, hhits, ih,
      List.find?_cons]
    by_cases hmem : e.line ∈ lines <;> cases hends : Text.pathEndsWith path file <;>
        simp [hmem, hends]

theorem find?_functions_eq_none (h : ∀ name, e.kind = .call → e.functionName ≠ some name)
    (names : List String) :
    (names.map Breakpoint.function).find? (·.hits e) = none := by
  rw [List.find?_eq_none]
  intro c hmem hit
  obtain ⟨name, -, rfl⟩ := List.mem_map.1 hmem
  obtain ⟨hk, hname⟩ := Breakpoint.hits_function.1 hit
  exact h name hk hname

theorem find?_functions {name : String} (hk : e.kind = .call) (hname : e.functionName = some name)
    (names : List String) : (names.map Breakpoint.function).find? (·.hits e) =
      if names.contains name then some (.function name) else none := by
  have hone : ∀ c ∈ names.map Breakpoint.function, c.hits e = true → c = .function name := by
    intro c hc hit
    obtain ⟨n, -, rfl⟩ := List.mem_map.1 hc
    rw [Option.some.inj ((Breakpoint.hits_function.1 hit).2.symm.trans hname)]
  rw [find?_hits_of_unique _ hone]
  simp [Breakpoint.hits_function, hk, hname]

theorem match?_of_exact (hk : e.kind = .line) (hfile : e.file? = some path)
    (hset : table.contains (.line path e.line) = true) :
    table.match? e = some (.line path e.line) := by
  rw [match?_line hk, hfile, Option.bind_some, if_pos]
  exact hset

/-- **The first hit** of the listing is found, if nothing names the running file
just as the event does. -/
theorem match?_eq_find?
    (hno : ∀ path, e.kind = .line → e.file? = some path →
      table.contains (.line path e.line) = false) :
    table.match? e = table.all.find? (·.hits e) := by
  unfold all
  rw [List.find?_append]
  by_cases hl : e.kind = .line
  · rw [find?_functions_eq_none (by simp [hl]), Option.or_none, match?_line hl]
    cases hfile : e.file? with
    | none =>
      rw [find?_lines_eq_none (by simp [hfile])]
      rfl
    | some path =>
      have hnot : (table.linesOf path).contains e.line = false := hno path hl hfile
      rw [find?_lines hl hfile, Option.bind_some, hnot, if_neg Bool.false_ne_true]
  · rw [find?_lines_eq_none fun path hk => absurd hk hl, Option.none_or]
    by_cases hc : e.kind = .call
    · rw [match?_call hc]
      cases hname : e.functionName with
      | none =>
        rw [find?_functions_eq_none (by simp [hname])]
        rfl
      | some name => rw [find?_functions hc hname, Option.bind_some]
    · rw [find?_functions_eq_none fun name hk => absurd hk hc, match?_other hl hc]

/-! ## More breakpoints -/

theorem editAll_append {σ : Type} (apply : σ → Edit → σ × Option Bool) (s : σ)
    (edits more : List Edit) :
    (editAll apply s (edits ++ more)).1 = (editAll apply (editAll apply s edits).1 more).1 := by
  induction edits generalizing s with
  | nil => rfl
  | cons e edits ih => exact ih (apply s e).1

/-- What is set stays so while breakpoints are added. -/
theorem mem_editAll_add {set : Finset Breakpoint} (h : b ∈ set) (bs : List Breakpoint) :
    b ∈ (editAll Edit.ofSet set (bs.map .add)).1 := by
  induction bs generalizing set with
  | nil => exact h
  | cons c bs ih => exact ih (Finset.mem_insert_of_mem h)

theorem mem_all_behind_add (h : b ∈ (behind edits).all) (bs : List Breakpoint) :
    b ∈ (behind (edits ++ bs.map .add)).all := by
  rw [(holds_behind _).mem_all] at h ⊢
  unfold setBehind
  rw [editAll_append]
  exact mem_editAll_add h bs

theorem isSome_match? : (table.match? e).isSome = true ↔ ∃ b ∈ table.all, b.hits e = true := by
  constructor
  · intro h
    obtain ⟨b, hb⟩ := Option.isSome_iff_exists.1 h
    exact ⟨b, hits_of_match? hb⟩
  · rintro ⟨b, hmem, hit⟩
    exact match?_isSome_of_hits hmem hit

/-- **What is hit is found.** Behind any edits of an empty table something is found if and only if
something listed is hit, and what is found is listed and hit. It is the line that names the running
file just as the event does, where that is listed, and else the first hit of the listing. More
breakpoints do not lose a hit. -/
theorem finds_what_is_hit (edits : List Edit) (e : Hook.Event) :
    (((behind edits).match? e).isSome = true ↔ ∃ b ∈ (behind edits).all, b.hits e = true) ∧
    (∀ b, (behind edits).match? e = some b → b ∈ (behind edits).all ∧ b.hits e = true) ∧
    (∀ path, e.kind = .line → e.source = "@" ++ path → .line path e.line ∈ (behind edits).all →
      (behind edits).match? e = some (.line path e.line)) ∧
    ((∀ path, e.kind = .line → e.source = "@" ++ path → .line path e.line ∉ (behind edits).all) →
      (behind edits).match? e = (behind edits).all.find? (·.hits e)) ∧
    (∀ bs : List Breakpoint, ((behind edits).match? e).isSome = true →
      ((behind (edits ++ bs.map .add)).match? e).isSome = true) ∧
    (∀ file line, (Breakpoint.line file line).hits e = true ↔ e.kind = .line ∧ e.line = line ∧
      ∃ path, e.source = "@" ++ path ∧ Text.pathParts file <:+ Text.pathParts path) ∧
    (∀ name, (Breakpoint.function name).hits e = true ↔
      e.kind = .call ∧ e.functionName = some name) := by
  have hordered := (holds_behind edits).ordered
  refine ⟨isSome_match?, fun b => hits_of_match?, fun path hk hsource hset => ?_, fun hno => ?_,
    fun bs hhit => ?_, fun file line => Breakpoint.hits_line_iff,
    fun name => Breakpoint.hits_function⟩
  · exact match?_of_exact hk (Hook.Event.file?_eq_some.2 hsource) (hordered.mem_all.1 hset)
  · refine match?_eq_find? fun path hk hfile => ?_
    rw [Bool.eq_false_iff]
    exact fun hset => hno path hk (Hook.Event.file?_eq_some.1 hfile) (hordered.mem_all.2 hset)
  · obtain ⟨b, hmem, hit⟩ := isSome_match?.1 hhit
    exact isSome_match?.2 ⟨b, mem_all_behind_add hmem bs, hit⟩

/-! ## Files of the same name -/

/-- **A line stops in files of its own name**, if it names a file at all, and only then. -/
theorem stops_in_namesakes (h : table.match? e = some (.line file line)) :
    ∃ path, e.source = "@" ++ path ∧
    (file ≠ "" ↔ ∃ part, (Text.pathParts file).getLast? = some part ∧
      (Text.pathParts path).getLast? = some part) := by
  obtain ⟨-, -, path, hfile, hends⟩ := Breakpoint.hits_line.1 (hits_of_match? h).2
  refine ⟨path, Hook.Event.file?_eq_some.1 hfile, Text.getLast?_of_pathEndsWith hends, ?_⟩
  rintro ⟨part, hlast, -⟩ rfl
  cases hlast

/-- **A line without a file** is found at its number in every file,
unless something else is hit there. -/
theorem nameless_found (h : .line "" e.line ∈ table.all) (hk : e.kind = .line)
    (hsource : e.source = "@" ++ path) :
    (table.match? e).isSome = true :=
  isSome_match?.2 ⟨_, h, Breakpoint.nameless_hits.2 ⟨hk, rfl, path, hsource⟩⟩

example :
    (behind [.add (.line "" 4)]).match?
      (.ofReport ⟨2, none, none, "Lua", "@game.lua", 4, 0, 1, 30⟩) =
    some (.line "" 4) := by
  decide

end BreakpointTable

end ScriptDebug
