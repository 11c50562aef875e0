import ScriptDebug.Breakpoint.Table
import ScriptDebug.Hook.Escalation

/-!
# Which events hit

What the table finds for an event is set, and the event hits it (`hits_of_match?`); and if the event
hits something that is set, the table finds something (`match?_isSome_of_hits`). What this asks of
the report that the runtime hands over is said by `Report.Reaches` (`reaches_iff`).
-/

namespace ScriptDebug

theorem Text.pathEndsWith_self (path : String) : pathEndsWith path path = true := by
  unfold pathEndsWith
  exact List.isSuffixOf_iff_suffix.2 (List.suffix_refl _)

namespace Breakpoint

variable {e : Hook.Event} {file name : String} {line : Int}

theorem hits_line : (Breakpoint.line file line).hits e = true ↔
    e.kind = .line ∧ e.line = line ∧ ∃ path, e.file? = some path ∧
    Text.pathEndsWith path file = true := by
  cases hfile : e.file? <;> simp [hits, hfile, and_assoc]

theorem hits_function :
    (Breakpoint.function name).hits e = true ↔ e.kind = .call ∧ e.functionName = some name := by
  simp [hits]

end Breakpoint

namespace BreakpointTable

variable {table : BreakpointTable} {b : Breakpoint} {e : Hook.Event}

theorem line_mem_all {file : String} {line : Int} :
    .line file line ∈ table.all ↔ ∃ lines, (file, lines) ∈ table.files ∧ line ∈ lines := by
  simp only [all, List.mem_append, List.mem_flatMap, List.mem_map,
    Breakpoint.line.injEq, reduceCtorEq, and_false, exists_false, or_false]
  constructor
  · rintro ⟨⟨f, lines⟩, hmem, l, hl, rfl, rfl⟩
    exact ⟨lines, hmem, hl⟩
  · rintro ⟨lines, hmem, hl⟩
    exact ⟨(file, lines), hmem, line, hl, rfl, rfl⟩

theorem function_mem_all {name : String} : .function name ∈ table.all ↔ name ∈ table.functions := by
  simp [all]

theorem line_mem_all_of_linesOf {file : String} {line : Int} (h : line ∈ table.linesOf file) :
    .line file line ∈ table.all := by
  unfold linesOf at h
  cases hget : Ascending.get? file table.files with
  | none =>
    rw [hget] at h
    cases h
  | some lines =>
    rw [hget] at h
    exact line_mem_all.2 ⟨lines, Ascending.mem_of_get? hget, h⟩

/-- The events of lines: the breakpoint of the running file,
else the first one that names its end. -/
theorem match?_line (hk : e.kind = .line) : table.match? e = e.file?.bind fun running =>
    if (table.linesOf running).contains e.line then some (.line running e.line)
    else (table.files.find? fun (file, lines) => lines.contains e.line &&
      Text.pathEndsWith running file).map fun (file, _) => .line file e.line := by
  unfold match?
  rw [hk]
  cases e.file? with
  | none => rfl
  | some running =>
    simp only [bind, Option.bind]
    split
    · rfl
    · cases table.files.find? _ <;> rfl

theorem match?_call (hk : e.kind = .call) : table.match? e = e.functionName.bind fun name =>
    if table.functions.contains name then some (.function name) else none := by
  unfold match?
  rw [hk]
  rfl

theorem match?_other (hl : e.kind ≠ .line) (hc : e.kind ≠ .call) : table.match? e = none := by
  unfold match?
  cases hk : e.kind with
  | line => exact absurd hk hl
  | call => exact absurd hk hc
  | _ => rfl

/-- **What is found** is set, and the event hits it. -/
theorem hits_of_match? (h : table.match? e = some b) : b ∈ table.all ∧ b.hits e = true := by
  by_cases hl : e.kind = .line
  · rw [match?_line hl] at h
    obtain ⟨running, hfile, h⟩ := Option.bind_eq_some_iff.1 h
    split at h
    · rename_i hexact
      cases h
      exact ⟨line_mem_all_of_linesOf (List.contains_iff_mem.1 hexact),
        Breakpoint.hits_line.2 ⟨hl, rfl, running, hfile, Text.pathEndsWith_self running⟩⟩
    · obtain ⟨⟨file, lines⟩, hfind, rfl⟩ := Option.map_eq_some_iff.1 h
      have hmem := List.mem_of_find?_eq_some hfind
      have hsat := List.find?_some hfind
      simp only [Bool.and_eq_true] at hsat
      exact ⟨line_mem_all.2 ⟨lines, hmem, List.contains_iff_mem.1 hsat.1⟩,
        Breakpoint.hits_line.2 ⟨hl, rfl, running, hfile, hsat.2⟩⟩
  · by_cases hc : e.kind = .call
    · rw [match?_call hc] at h
      obtain ⟨name, hname, h⟩ := Option.bind_eq_some_iff.1 h
      split at h
      · rename_i hset
        cases h
        exact ⟨function_mem_all.2 (List.contains_iff_mem.1 hset),
          Breakpoint.hits_function.2 ⟨hc, hname⟩⟩
      · cases h
    · rw [match?_other hl hc] at h
      cases h

/-- **What is hit** is found, or something else is. -/
theorem match?_isSome_of_hits (hb : b ∈ table.all) (hit : b.hits e = true) :
    (table.match? e).isSome = true := by
  cases b with
  | line file line =>
    obtain ⟨lines, hmem, hline⟩ := line_mem_all.1 hb
    obtain ⟨hk, rfl, running, hfile, hpath⟩ := Breakpoint.hits_line.1 hit
    rw [match?_line hk, hfile, Option.bind_some]
    split
    · rfl
    · rw [Option.isSome_map, List.find?_isSome]
      exact ⟨(file, lines), hmem, by simp [hline, hpath]⟩
  | function name =>
    obtain ⟨hk, hname⟩ := Breakpoint.hits_function.1 hit
    rw [match?_call hk, hname, Option.bind_some, if_pos]
    · rfl
    · exact List.contains_iff_mem.2 (function_mem_all.1 hb)

end BreakpointTable

/-! ## Reports -/

/-- **Reaches.** Whether what the runtime reports stops at a breakpoint: it is a line with the
number of the breakpoint, of a file whose path ends with the one named, or a call of the function
named, which has a name. -/
def Hook.Report.Reaches (r : Hook.Report) : Breakpoint → Prop
  | .line file line => r.code = 2 ∧ r.line = line ∧
      ∃ path, r.source = "@" ++ path ∧ Text.pathEndsWith path file = true
  | .function name => r.code = 0 ∧ name ≠ "" ∧ r.name = some name

theorem Hook.Kind.ofCode_eq_line {code : Int} : Kind.ofCode code = .line ↔ code = 2 := by
  constructor
  · intro h
    have hcode := congrArg Kind.code h
    rwa [Kind.code_ofCode] at hcode
  · rintro rfl
    rfl

theorem Hook.Kind.ofCode_eq_call {code : Int} : Kind.ofCode code = .call ↔ code = 0 := by
  constructor
  · intro h
    have hcode := congrArg Kind.code h
    rwa [Kind.code_ofCode] at hcode
  · rintro rfl
    rfl

/-- A chunk was loaded from a file if its name is the path of the file behind `@`. -/
theorem Hook.Event.file?_eq_some {e : Event} {path : String} :
    e.file? = some path ↔ e.source = "@" ++ path := by
  unfold file?
  split
  · rename_i cs hcs
    constructor
    · intro h
      cases h
      rw [← String.toList_inj, hcs]
      simp
    · intro h
      rw [h] at hcs
      simp at hcs
      simp [← hcs]
  · rename_i hno
    constructor
    · intro h
      cases h
    · intro h
      exact absurd (by rw [h]; simp) (hno path.toList)

/-- **What is reached** is what the event of the report hits. -/
theorem Hook.Report.reaches_iff {r : Hook.Report} {b : Breakpoint} :
    r.Reaches b ↔ b.hits (.ofReport r) = true := by
  cases b with
  | line file line =>
    rw [Breakpoint.hits_line]
    simp only [Hook.Event.file?_eq_some]
    exact and_congr_left' Hook.Kind.ofCode_eq_line.symm
  | function name =>
    have hname : (Hook.Event.ofReport r).functionName = some name ↔
        name ≠ "" ∧ r.name = some name := by
      show r.name.filter (· ≠ "") = some name ↔ _
      rw [Option.filter_eq_some_iff]
      simp [and_comm]
    rw [Breakpoint.hits_function, hname]
    exact and_congr_left' Hook.Kind.ofCode_eq_call.symm

theorem Hook.Frame.ofTag_eq_script {tag : String} :
    Frame.ofTag tag = .script ↔ lowerAscii tag = "lua" := by
  unfold ofTag
  split
  · simp [*]
  · split <;> (try split) <;> simp [*]

end ScriptDebug
