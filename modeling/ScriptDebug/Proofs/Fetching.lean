import ScriptDebug.Proofs.Inspection

/-!
# Listing and fetching variables

A client asks for the variables of a frame in two ways: a listing goes through the indices from one
on until the host has no more, and a fetch goes straight to one index. The two agree
(`listed_iff_fetched`).

1. A listing tells an index with a name if and only if the variable with that index has that name
   (`mem_listing_variables`).
2. While an execution is shown as paused, an operation on its stack comes to what the machine holds
   (`ShownPaused.finishes`): a listing tells all variables (`ShownPaused.lists`), and a fetch shows
   the one with its index (`ShownPaused.fetches`), if there is one (`ShownPaused.fetches_none`).
-/

namespace ScriptDebug

/-! ## Listings -/

theorem length_listing (i : Nat) (vars : List Script.Variable) :
    (listing i vars).length = vars.length := by
  induction vars generalizing i with
  | nil => rfl
  | cons v vars ih => rw [listing, List.length_cons, List.length_cons, ih]

theorem index_listing (i : Nat) (vars : List Script.Variable) :
    (listing i vars).map (·.index) = List.range' i vars.length := by
  induction vars generalizing i with
  | nil => rfl
  | cons v vars ih => rw [listing, List.map_cons, ih, List.length_cons, List.range'_succ]

theorem name_listing (i : Nat) (vars : List Script.Variable) :
    (listing i vars).map (·.name) = vars.map (·.1) := by
  induction vars generalizing i with
  | nil => rfl
  | cons v vars ih => rw [listing, List.map_cons, ih, List.map_cons]

theorem getElem?_listing (i k : Nat) (vars : List Script.Variable) :
    (listing i vars)[k]? = (vars[k]?).map fun v => ⟨i + k, v.1⟩ := by
  induction vars generalizing i k with
  | nil => rfl
  | cons v vars ih =>
    cases k with
    | zero => rfl
    | succ k =>
      rw [listing, List.getElem?_cons_succ, List.getElem?_cons_succ, ih, Nat.add_assoc,
        Nat.add_comm 1 k]

namespace Script.Machine

variable {m : Machine} {kind : VariableKind} {h : Handle} {frame i : Nat} {name : String}

theorem variableAt?_isSome :
    (m.variableAt? kind h frame i).isSome = true ↔
    1 ≤ i ∧ i ≤ (m.variables kind h frame).length := by
  cases i with
  | zero => simp [variableAt?]
  | succ i =>
    have hlt : ((m.variables kind h frame)[i]?).isSome = true ↔
        i < (m.variables kind h frame).length := by simp
    exact hlt.trans (by omega)

/-- **What is listed** is there to be fetched, under the same name. -/
theorem mem_listing_variables :
    (⟨i, name⟩ : Slot) ∈ listing 1 (m.variables kind h frame) ↔
      ∃ v, m.variableAt? kind h frame i = some (name, v) := by
  rw [List.mem_iff_getElem?]
  constructor
  · rintro ⟨k, hk⟩
    rw [getElem?_listing, Option.map_eq_some_iff] at hk
    obtain ⟨v, hv, heq⟩ := hk
    cases heq
    rw [Nat.add_comm 1 k]
    exact ⟨v.2, hv⟩
  · rintro ⟨v, hv⟩
    cases i with
    | zero => cases hv
    | succ k =>
      refine ⟨k, ?_⟩
      rw [getElem?_listing, show (m.variables kind h frame)[k]? = some (name, v) from hv,
        Option.map_some, Nat.add_comm 1 k]

theorem variables_of_frame {f : Frame} (hf : m.frame? h frame = some f) :
    m.variables kind h frame = f.variablesOf kind := by
  rw [Machine.variables, hf]
  rfl

theorem variables_of_no_frame (hf : m.frame? h frame = none) : m.variables kind h frame = [] := by
  rw [Machine.variables, hf]
  rfl

theorem frame_of_variableAt? {v : Variable} (hv : m.variableAt? kind h frame i = some v) :
    ∃ f, m.frame? h frame = some f ∧ (f.variablesOf kind)[i - 1]? = some v := by
  cases i with
  | zero => cases hv
  | succ i =>
    rw [variableAt?] at hv
    cases hf : m.frame? h frame with
    | none =>
      rw [variables_of_no_frame hf] at hv
      cases hv
    | some f =>
      rw [variables_of_frame hf] at hv
      exact ⟨f, rfl, hv⟩

end Script.Machine

/-! ## A paused stack -/

namespace Debugger

variable {logic : Logic} {sink : Sink} {d : Debugger ⟨Script.host, logic, sink⟩}
  {t : ThreadId} {h : Handle} {c : ContextId} {kind : VariableKind} {frame index : Nat}

theorem ShownPaused.finishes (hp : d.ShownPaused h c) (ht : t < d.threads.length) (op : Operation)
    (hop : op.stack? = some h) : d.Finishes t op (d.looked op).1 (d.looked op).2 := by
  have hworks : Works t d .none [.begin op] (d.outcomeOn h op).1 (d.outcomeOn h op).2 :=
    works_outcomeOn hop .none
  have hfree : d.refusal? h = none := by simp only [refusal?, hp.registered, hp.paused, if_true]
  rw [outcomeOn, hfree] at hworks
  exact hworks.finishes ht

theorem ShownPaused.lists (hp : d.ShownPaused h c) (ht : t < d.threads.length) (kind : VariableKind)
    (frame : Nat) :
    d.Finishes t (.listVariables kind h frame) d
      (.slots (.ok (listing 1 (Script.Machine.variables d.host kind h frame)))) :=
  hp.finishes ht (.listVariables kind h frame) rfl

theorem ShownPaused.fetches (hp : d.ShownPaused h c) (ht : t < d.threads.length)
    {v : Script.Variable} (hv : Script.Machine.variableAt? d.host kind h frame index = some v)
    (levels : Int) :
    d.Finishes t (.fetchVariable kind h frame index levels) d
      (.node ((Node.view? Script.Value.look levels (some v.1) v.2).mapError .levels)) := by
  have hfetch := hp.finishes ht (.fetchVariable kind h frame index levels) rfl
  simp only [looked, hv] at hfetch
  exact hfetch

theorem ShownPaused.fetches_none (hp : d.ShownPaused h c) (ht : t < d.threads.length)
    (hv : Script.Machine.variableAt? d.host kind h frame index = none) (levels : Int) :
    d.Finishes t (.fetchVariable kind h frame index levels) d (.node (.error .invalidIndex)) := by
  have hfetch := hp.finishes ht (.fetchVariable kind h frame index levels) rfl
  simp only [looked, hv] at hfetch
  exact hfetch

theorem ShownPaused.fetches_view (hp : d.ShownPaused h c) (ht : t < d.threads.length)
    {v : Script.Variable} (hv : Script.Machine.variableAt? d.host kind h frame index = some v)
    {levels : Int} (hl : 0 ≤ levels) :
    d.Finishes t (.fetchVariable kind h frame index levels) d
      (.node (.ok (Node.view Script.Value.look levels.toNat (some v.1) v.2))) := by
  have hfetch := hp.fetches ht hv levels
  rw [Node.view?, if_neg (Int.not_lt.2 hl)] at hfetch
  exact hfetch

theorem ShownPaused.fetches_negative (hp : d.ShownPaused h c) (ht : t < d.threads.length)
    (kind : VariableKind) (frame index : Nat) {levels : Int} (hl : levels < 0) :
    ∃ f, d.Finishes t (.fetchVariable kind h frame index levels) d (.node (.error f)) := by
  cases hv : Script.Machine.variableAt? d.host kind h frame index with
  | none => exact ⟨.invalidIndex, hp.fetches_none ht hv levels⟩
  | some v =>
    have hfetch := hp.fetches ht hv levels
    rw [Node.view?, if_pos hl] at hfetch
    exact ⟨.levels ⟨levels⟩, hfetch⟩

/-- A fetch gives a node if and only if there is a variable with its index and the
levels are not below zero. -/
theorem ShownPaused.fetches_iff (hp : d.ShownPaused h c) (ht : t < d.threads.length)
    (kind : VariableKind) (frame index : Nat) (levels : Int) :
    (∃ e n, d.Finishes t (.fetchVariable kind h frame index levels) e (.node (.ok n))) ↔
      0 ≤ levels ∧ 1 ≤ index ∧ index ≤ (Script.Machine.variables d.host kind h frame).length := by
  constructor
  · rintro ⟨e, n, hfetch⟩
    have hlevels : 0 ≤ levels := by
      by_contra hneg
      obtain ⟨f, hf⟩ := hp.fetches_negative ht kind frame index (Int.not_le.1 hneg)
      cases hfetch.unique hf ht
    refine ⟨hlevels, Script.Machine.variableAt?_isSome.1 ?_⟩
    cases hv : Script.Machine.variableAt? d.host kind h frame index with
    | none => cases hfetch.unique (hp.fetches_none ht hv levels) ht
    | some v => rfl
  · rintro ⟨hlevels, hindex⟩
    obtain ⟨v, hv⟩ := Option.isSome_iff_exists.1 (Script.Machine.variableAt?_isSome.2 hindex)
    exact ⟨d, _, hp.fetches_view ht hv hlevels⟩

/-- **Listing and fetching agree.** Of an execution that is shown as paused, a client lists the
variables of a kind in a frame. The listing has the indices from one on, with the names that the
frame has, and none for a frame that is not there. A fetch gives a node if and only if its index is
listed and its levels are not below zero. The node then shows the variable of the frame with that
index, under the name that is listed for it and down to those levels; an index that is not listed is
answered as invalid, and levels below zero are an error in any case. -/
theorem listed_iff_fetched (ht : t < d.threads.length) (hp : d.ShownPaused h c)
    (kind : VariableKind) (frame : Nat) :
    ∃ slots : List Slot, d.Finishes t (.listVariables kind h frame) d (.slots (.ok slots)) ∧
      slots.map (·.index) = List.range' 1 slots.length ∧
      (∀ f, Script.Machine.frame? d.host h frame = some f →
        slots.map (·.name) = (f.variablesOf kind).map (·.1)) ∧
      (Script.Machine.frame? d.host h frame = none → slots = []) ∧
      (∀ index levels,
        (∃ e n, d.Finishes t (.fetchVariable kind h frame index levels) e (.node (.ok n))) ↔
        0 ≤ levels ∧ 1 ≤ index ∧ index ≤ slots.length) ∧
      (∀ s ∈ slots, ∃ f v, Script.Machine.frame? d.host h frame = some f ∧
        (f.variablesOf kind)[s.index - 1]? = some (s.name, v) ∧
        ∀ levels, 0 ≤ levels → d.Finishes t (.fetchVariable kind h frame s.index levels) d
          (.node (.ok (Node.view Script.Value.look levels.toNat (some s.name) v)))) ∧
      (∀ index levels, ¬ (1 ≤ index ∧ index ≤ slots.length) →
        d.Finishes t (.fetchVariable kind h frame index levels) d (.node (.error .invalidIndex))) ∧
      (∀ index levels, levels < 0 →
        ∃ f, d.Finishes t (.fetchVariable kind h frame index levels) d (.node (.error f))) ∧
      CommandFailure.invalidIndex.message = "Invalid variable index." := by
  refine ⟨_, hp.lists ht kind frame, ?_, fun f hf => ?_, fun hf => ?_, fun index levels => ?_,
    fun s hs => ?_, fun index levels hindex => ?_,
    fun index levels hl => hp.fetches_negative ht kind frame index hl, rfl⟩
  · rw [index_listing, length_listing]
  · rw [name_listing, Script.Machine.variables_of_frame hf]
  · rw [Script.Machine.variables_of_no_frame hf]
    rfl
  · rw [length_listing]
    exact hp.fetches_iff ht kind frame index levels
  · obtain ⟨v, hv⟩ := Script.Machine.mem_listing_variables.1 hs
    obtain ⟨f, hf, hslot⟩ := Script.Machine.frame_of_variableAt? hv
    exact ⟨f, v, hf, hslot, fun levels hl => hp.fetches_view ht hv hl⟩
  · rw [length_listing] at hindex
    refine hp.fetches_none ht ?_ levels
    rw [← Option.not_isSome_iff_eq_none]
    exact mt Script.Machine.variableAt?_isSome.1 hindex

end Debugger

namespace Rehearsal

/-- The client that pauses the second function may fetch the one local of the main
function, and no other. -/
theorem lives_fetched :
    let d := gameDebugger.instant inspecting 71
    (∃ e n, d.Finishes 0 (.fetchVariable .local ⟨1⟩ 1 1 1) e (.node (.ok n))) ∧
      d.Finishes 0 (.fetchVariable .local ⟨1⟩ 1 2 1) d (.node (.error .invalidIndex)) := by
  intro d
  obtain ⟨slots, -, -, hnames, -, hiff, -, hnone, -, -⟩ := Debugger.listed_iff_fetched (t := 0)
    (by decide +kernel) (inspecting_shown 71 (by decide) (by decide)) .local 1
  have hlives : (Script.Machine.frame? d.host ⟨1⟩ 1).map
      (fun f => (f.variablesOf .local).map (·.1)) =
      some ["lives"] := by decide +kernel
  obtain ⟨f, hf, hlocals⟩ := Option.map_eq_some_iff.1 hlives
  have hlength : slots.length = 1 := by
    rw [← List.length_map (f := (·.name)), hnames f hf, hlocals]
    rfl
  rw [hlength] at hiff hnone
  exact ⟨(hiff 1 1).2 (by decide), hnone 2 1 (by decide)⟩

end Rehearsal

end ScriptDebug
