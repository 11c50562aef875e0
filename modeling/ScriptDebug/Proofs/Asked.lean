import ScriptDebug.Proofs.Alone
import ScriptDebug.Proofs.Handler
import ScriptDebug.Script.Host

/-!
# What a client may ask for

Over the script machine every operation that a client may ask for comes to an end, when its thread
is left alone. `outcome` tells the state and the answer at its end as a function of the state it is
given in; `works_asked` says that this is what its steps lead to. Each one fails and changes
nothing, or makes the change of its kind (`outcome_cases`).
-/

namespace ScriptDebug

/-- The variables of a kind in a frame; there are none where there is no such frame. -/
def Script.Machine.variables (m : Script.Machine) (kind : VariableKind) (h : Handle) (frame : Nat) :
    List Script.Variable :=
  ((m.frame? h frame).map (·.variablesOf kind)).getD []

/-- The variable with an index, counted from one. -/
def Script.Machine.variableAt? (m : Script.Machine) (kind : VariableKind) (h : Handle)
    (frame : Nat) :
    Nat → Option Script.Variable
  | 0 => none
  | index + 1 => (m.variables kind h frame)[index]?

/-- The failure that an answer tells. -/
def Answer.failure? : Answer → Option CommandFailure
  | .command (.error f) | .node (.error f) | .slots (.error f) => some f
  | _ => Option.none

/-- The execution whose stack an operation looks into. -/
def Operation.stack? : Operation → Option Handle
  | .load h _ | .evaluate h _ | .listVariables _ h _ | .fetchVariable _ h _ _ _ => some h
  | _ => none

/-- How a context is listed. -/
def Context.info (x : Context) : ContextInfo :=
  ⟨x.handle, x.name, x.state, x.pausedAt.map (·.location)⟩

/-- A listing of variables whose first one has a given index. -/
def listing (index : Nat) : List Script.Variable → List Slot
  | [] => []
  | (name, _) :: rest => ⟨index, name⟩ :: listing (index + 1) rest

theorem Script.Machine.probe_eq (m : Script.Machine) (kind : VariableKind) (h : Handle)
    (frame index : Nat) :
    m.probe kind h frame index =
      match m.variableAt? kind h frame index with
      | some v => { shown := some v, found := true }
      | none => {} := by
  unfold probe variableAt? Machine.variables
  cases m.frame? h frame with
  | none => cases index <;> rfl
  | some f =>
    rw [Option.bind_some]
    cases index with
    | zero => cases (f.variablesOf kind)[0 - 1]? <;> rfl
    | succ index =>
      rw [Nat.add_sub_cancel]
      show _ = match (f.variablesOf kind)[index]? with
        | some v => ({ shown := some v, found := true } : Probe Script.Value)
        | none => {}
      cases (f.variablesOf kind)[index]? <;> rfl

/-! ## Failures of scripts -/

theorem Script.Value.follow_of_error {expression : List Char} {v : Script.Value}
    {parts : List (List Char)} {f : ScriptFailure} (hf : v.follow expression parts = .error f) :
    f.code ≠ 0 := by
  induction parts generalizing v with
  | nil => cases hf
  | cons part rest ih =>
    unfold follow at hf
    split at hf
    · cases hf
      simp [expressionFault]
    · split at hf
      · exact ih hf
      · cases hf
        simp [indexFault]

theorem Script.Machine.evaluate_of_error {m : Script.Machine} {h : Handle} {text : String}
    {f : ScriptFailure} (hf : m.evaluate h text = .error f) : f.code ≠ 0 := by
  unfold evaluate at hf
  simp only at hf
  split at hf
  · cases hf
  · split at hf
    · cases hf
      simp [expressionFault]
    · split at hf
      · exact Script.Value.follow_of_error hf
      · cases hf
        simp [expressionFault]

theorem Script.Machine.load_of_error {m : Script.Machine} {h : Handle} {path : String}
    {f : ScriptFailure} (hf : (m.load h path).2 = .error f) :
    f.code ≠ 0 ∧ (m.load h path).1 = m := by
  rcases hl : m.load h path with ⟨m', r⟩
  rw [hl] at hf
  obtain rfl : r = .error f := hf
  unfold load at hl
  split at hl
  · cases hl
    exact ⟨by simp, rfl⟩
  · split at hl
    · cases hl
      exact ⟨by simp, rfl⟩
    · split at hl
      · cases hl
        exact ⟨by simp, rfl⟩
      · cases hl

namespace Debugger

variable {logic : Logic} {sink : Sink} {d e : Debugger ⟨Script.host, logic, sink⟩} {t : ThreadId}
  {h : Handle} {op : Operation} {last : Answer}

/-! ## Outcomes -/

/-- Why the stack of an execution cannot be looked at. -/
def refusal? (d : Debugger ⟨Script.host, logic, sink⟩) (h : Handle) : Option CommandFailure :=
  match d.lookup h with
  | none => some (.invalidContext h)
  | some c => if (d.contexts[c]?).any (·.isPaused) then none else some .running

/-- A context is resumed. -/
def resumed (d : Debugger ⟨Script.host, logic, sink⟩) (c : ContextId) :
    Debugger ⟨Script.host, logic, sink⟩ :=
  match d.contexts[c]? with
  | some x => d.setContext c x.resume.1
  | none => d

/-- What an operation on a stack comes to, once it is known to be paused. -/
def looked (d : Debugger ⟨Script.host, logic, sink⟩) :
    Operation → Debugger ⟨Script.host, logic, sink⟩ × Answer
  | .evaluate h text =>
    (d, .node
      (((d.host.evaluate h text).map (Node.view Script.Value.look 1 none)).mapError .script))
  | .load h path =>
    ({ d with host := (d.host.load h path).1 }, .command ((d.host.load h path).2.mapError .script))
  | .listVariables kind h frame => (d, .slots (.ok (listing 1 (d.host.variables kind h frame))))
  | .fetchVariable kind h frame index levels =>
    match d.host.variableAt? kind h frame index with
    | some (name, v) =>
      (d, .node ((Node.view? Script.Value.look levels (some name) v).mapError .levels))
    | none => (d, .node (.error .invalidIndex))
  | _ => (d, .none)

/-- What an operation on a stack comes to; it is refused if the stack cannot be looked at. -/
def outcomeOn (d : Debugger ⟨Script.host, logic, sink⟩) (h : Handle) (op : Operation) :
    Debugger ⟨Script.host, logic, sink⟩ × Answer :=
  match d.refusal? h with
  | some f => (d, op.refuse f)
  | none => d.looked op

/-- **Outcome.** The state and the answer at the end of an operation that a client may ask for. -/
def outcome (d : Debugger ⟨Script.host, logic, sink⟩) (op : Operation) :
    Debugger ⟨Script.host, logic, sink⟩ × Answer :=
  match op with
  | .contexts => (d, .contexts (d.registeredContexts.map Context.info))
  | .resume h =>
    match d.lookup h with
    | none => (d, .command (.error (.invalidContext h)))
    | some c => (d.resumed c, .command (.ok ()))
  | .load h _ | .evaluate h _ | .listVariables _ h _ | .fetchVariable _ h _ _ _ => d.outcomeOn h op
  | .setVariable .. => (d, .command (.error .notImplemented))
  | .reload => ({ d with reload := true }, .none)
  | _ => (d, .none)

/-! ## The steps to it -/

theorem works_describe {S : Setup} {d : Debugger S} (cs : List ContextId) (done : List ContextInfo)
    (last : Answer) : Works t d last [.describe cs done] d
      (.contexts (done ++ (cs.filterMap fun c => d.contexts[c]?).map Context.info)) := by
  induction cs generalizing done last with
  | nil =>
    refine works_act ?_
    simp [act]
  | cons c cs ih =>
    cases hc : d.contexts[c]? with
    | none =>
      have hact : d.act t last (.describe (c :: cs) done) =
          some (d, [.describe cs done], .none) := by
        simp only [act, hc]
      refine .cons hact ?_
      simpa [hc] using ih done .none
    | some x =>
      have hact : d.act t last (.describe (c :: cs) done) =
          some (d, [.describeLocation c x.state cs done], .none) := by
        simp only [act, hc]
      have hact' : d.act t .none (.describeLocation c x.state cs done) =
          some (d, [.describe cs (done ++ [x.info])], .none) := by
        simp only [act, hc, Context.info]
      refine .cons hact (.cons hact' ?_)
      simpa [hc] using ih (done ++ [x.info]) .none

theorem works_enumerate (kind : VariableKind) (h : Handle) (frame done : Nat) (slots : List Slot)
    (last : Answer) :
    Works t d last [.enumerate kind h frame (done + 1) slots] d
      (.slots (.ok (slots ++ listing (done + 1) ((d.host.variables kind h frame).drop done)))) := by
  generalize hrest : (d.host.variables kind h frame).drop done = rest
  have hprobe : Script.host.probe d.host kind h frame (done + 1) =
      match rest.head? with
      | some v => { shown := some v, found := true }
      | none => {} := by
    rw [← hrest, List.head?_drop]
    exact d.host.probe_eq kind h frame (done + 1)
  induction rest generalizing done slots last with
  | nil =>
    refine works_act ?_
    simp [act, hprobe, listing]
  | cons v rest ih =>
    obtain ⟨name, w⟩ := v
    have hact : d.act t last (.enumerate kind h frame (done + 1) slots) =
        some (d, [.enumerate kind h frame (done + 1 + 1) (slots ++ [⟨done + 1, name⟩])],
          .none) := by
      simp only [act, hprobe]
      rfl
    have htail : (d.host.variables kind h frame).drop (done + 1) = rest := by
      rw [← List.tail_drop, hrest]
      rfl
    refine .cons hact ?_
    have hnext := ih (done + 1) (slots ++ [⟨done + 1, name⟩]) .none htail
      (by rw [← htail, List.head?_drop]; exact d.host.probe_eq kind h frame (done + 1 + 1))
    rw [List.append_assoc] at hnext
    exact hnext

theorem works_evaluate (h : Handle) (text : String) (last : Answer) :
    Works t d last (Operation.evaluate h text).look (d.looked (.evaluate h text)).1
      (d.looked (.evaluate h text)).2 := by
  have hhost : d.act t last (.host (.expression h text)) =
      some (d, [], .evaluated ((d.host.evaluate h text).map
        fun v => some (Node.view Script.Value.look 1 none v))) := by
    show some (d, [], Answer.evaluated (((d.host.evaluate h text).map fun v => [v]).map _)) = _
    cases d.host.evaluate h text <;> rfl
  refine .cons hhost (works_act ?_)
  simp only [act, looked]
  cases d.host.evaluate h text <;> rfl

theorem works_load (h : Handle) (path : String) (last : Answer) :
    Works t d last (Operation.load h path).look (d.looked (.load h path)).1
      (d.looked (.load h path)).2 := by
  have hhost : d.act t last (.host (.file h path)) =
      some ({ d with host := (d.host.load h path).1 }, [],
        .evaluated ((d.host.load h path).2.map fun _ => none)) := by
    show some (_, _, Answer.evaluated (((d.host.load h path).2.map fun _ => []).map _)) = _
    cases (d.host.load h path).2 <;> rfl
  refine .cons hhost (works_act ?_)
  simp only [act, looked]
  cases (d.host.load h path).2 <;> rfl

theorem works_fetch (kind : VariableKind) (h : Handle) (frame index : Nat) (levels : Int)
    (last : Answer) :
    Works t d last (Operation.fetchVariable kind h frame index levels).look
      (d.looked (.fetchVariable kind h frame index levels)).1
      (d.looked (.fetchVariable kind h frame index levels)).2 := by
  refine works_act ?_
  have hprobe : Script.host.probe d.host kind h frame index = _ :=
    d.host.probe_eq kind h frame index
  simp only [act, looked, hprobe]
  cases d.host.variableAt? kind h frame index <;> rfl

theorem works_outcomeOn (hop : op.stack? = some h) (last : Answer) :
    Works t d last [.begin op] (d.outcomeOn h op).1 (d.outcomeOn h op).2 := by
  have hbegin : d.act t last (.begin op) = some (d.beginLook h op) := by
    cases op <;> cases hop <;> rfl
  have hlook : Works t d .none op.look (d.looked op).1 (d.looked op).2 := by
    cases op <;> cases hop
    · exact works_load _ _ _
    · exact works_evaluate _ _ _
    · exact works_enumerate _ _ _ 0 [] _
    · exact works_fetch _ _ _ _ _ _
  unfold beginLook at hbegin
  unfold outcomeOn
  cases hc : d.lookup h with
  | none =>
    rw [hc] at hbegin
    have hrefused : d.refusal? h = some (.invalidContext h) := by simp only [refusal?, hc]
    rw [hrefused]
    exact works_act hbegin
  | some c =>
    rw [hc] at hbegin
    refine .of_act hbegin ?_
    have hinspect : d.act t .none (.inspect c op) =
        some (if (d.contexts[c]?).any (·.isPaused) then (d, op.look, .none)
          else (d, [], op.refuse .running)) := by
      cases hx : d.contexts[c]? with
      | none => simp [act, hx]
      | some x => cases hp : x.isPaused <;> simp [act, hx, hp]
    by_cases hp : (d.contexts[c]?).any (·.isPaused) = true
    · have hfree : d.refusal? h = none := by simp only [refusal?, hc, hp, if_true]
      rw [hfree]
      rw [if_pos hp] at hinspect
      exact .of_act hinspect hlook
    · have hrefused : d.refusal? h = some .running := by simp only [refusal?, hc, hp]; rfl
      rw [hrefused]
      rw [if_neg hp] at hinspect
      exact works_act hinspect

theorem works_resume (hopen : d.Open t) (h : Handle) (last : Answer) :
    Works t d last [.begin (.resume h)] (d.outcome (.resume h)).1 (d.outcome (.resume h)).2 := by
  simp only [outcome]
  cases hc : d.lookup h with
  | none =>
    refine works_act ?_
    simp only [act, beginOperation, hc]
  | some c =>
    have hbegin : d.act t last (.begin (.resume h)) =
        some (d, [.lock, .resumeOne c, .unlock, .give (.command (.ok ()))], .none) := by
      simp only [act, beginOperation, hc]
    have hresume : ∃ b, Works t (d.locked t) .none [.resumeOne c] ((d.locked t).resumed c)
        (.flag b) := by
      cases hx : (d.locked t).contexts[c]? with
      | none =>
        refine ⟨false, works_act ?_⟩
        simp only [act, resumed, hx]
      | some x =>
        refine ⟨x.resume.2, works_act ?_⟩
        simp only [act, resumed, hx]
    obtain ⟨b, hresume⟩ := hresume
    have hlock : ((d.locked t).resumed c).dispatch = (d.locked t).dispatch := by
      unfold resumed
      split <;> rfl
    have hback : { (d.locked t).resumed c with dispatch := d.dispatch } = d.resumed c := by
      show { (match d.contexts[c]? with
        | some x => (d.locked t).setContext c x.resume.1
        | none => d.locked t) with dispatch := d.dispatch } = d.resumed c
      unfold resumed
      cases d.contexts[c]? <;> rfl
    have hgive : Works t (d.resumed c) (.flag b) [.give (.command (.ok ()))] (d.resumed c)
        (.command (.ok ())) := works_act rfl
    exact .of_act hbegin ((works_lock hopen .none).append
      (hresume.append ((hback ▸ works_unlock hopen hlock (.flag b)).append hgive)))

/-- **What a client may ask for comes to its outcome.** -/
theorem works_asked (hop : op.isAsked = true) (hopen : d.Open t) (last : Answer) :
    Works t d last [.begin op] (d.outcome op).1 (d.outcome op).2 := by
  cases op with
  | resume h => exact works_resume hopen h last
  | load | evaluate | listVariables | fetchVariable => exact works_outcomeOn rfl last
  | setVariable | reload => exact works_act rfl
  | contexts => exact .cons rfl (works_describe d.registered [] .none)
  | _ => cases hop

/-! ## Failures and changes -/

theorem failure?_refuse (hop : op.stack? = some h) (f : CommandFailure) :
    (op.refuse f).failure? = some f := by
  cases op <;> cases hop <;> rfl

theorem code_of_refusal {f : CommandFailure} (hf : d.refusal? h = some f) : f.code ≠ 0 := by
  unfold refusal? at hf
  split at hf
  · cases hf
    simp [CommandFailure.code]
  · split at hf
    · cases hf
    · cases hf
      simp [CommandFailure.code]

/-- **Changes.** What an operation that a client may ask for changes if it does not fail. -/
def Changes (d : Debugger ⟨Script.host, logic, sink⟩) (op : Operation)
    (e : Debugger ⟨Script.host, logic, sink⟩) : Prop :=
  match op with
  | .resume h => ∃ c, d.lookup h = some c ∧ e = d.resumed c
  | .load h path => e = { d with host := (d.host.load h path).1 }
  | .reload => e = { d with reload := true }
  | _ => e = d

/-- **Fails.** An answer tells a failure, its code is not zero, and nothing has changed. -/
def Failed (d : Debugger ⟨Script.host, logic, sink⟩)
    (o : Debugger ⟨Script.host, logic, sink⟩ × Answer) : Prop :=
  ∃ f, o.2.failure? = some f ∧ f.code ≠ 0 ∧ o.1 = d

theorem looked_cases (d : Debugger ⟨Script.host, logic, sink⟩) (hop : op.stack? = some h) :
    d.Failed (d.looked op) ∨ (d.looked op).2.failure? = none ∧ d.Changes op (d.looked op).1 := by
  cases op <;> cases hop
  case load path =>
    cases hr : (d.host.load h path).2 with
    | error f =>
      obtain ⟨hcode, hsame⟩ := Script.Machine.load_of_error hr
      refine .inl ⟨.script f, by simp only [looked, hr]; rfl, hcode, ?_⟩
      simp only [looked, hsame]
    | ok =>
      refine .inr ⟨by simp only [looked, hr]; rfl, rfl⟩
  case evaluate text =>
    cases hr : d.host.evaluate h text with
    | error f =>
      exact .inl ⟨.script f, by simp only [looked, hr]; rfl,
        Script.Machine.evaluate_of_error hr, rfl⟩
    | ok => exact .inr ⟨by simp only [looked, hr]; rfl, rfl⟩
  case listVariables kind frame => exact .inr ⟨rfl, rfl⟩
  case fetchVariable kind frame index levels =>
    cases hv : d.host.variableAt? kind h frame index with
    | none =>
      exact .inl ⟨.invalidIndex, by simp only [looked, hv]; rfl, by simp [CommandFailure.code],
        by simp only [looked, hv]⟩
    | some v =>
      cases hn : Node.view? Script.Value.look levels (some v.1) v.2 with
      | error f =>
        exact .inl ⟨.levels f, by simp only [looked, hv, hn]; rfl, by simp [CommandFailure.code],
          by simp only [looked, hv]⟩
      | ok n => exact .inr ⟨by simp only [looked, hv, hn]; rfl, by simp only [looked, hv]; rfl⟩

/-- An operation that a client may ask for fails and leaves all as it is, or makes its change. -/
theorem outcome_cases (d : Debugger ⟨Script.host, logic, sink⟩) (op : Operation) :
    d.Failed (d.outcome op) ∨ (d.outcome op).2.failure? = none ∧ d.Changes op (d.outcome op).1 := by
  have hstack : ∀ {h : Handle}, op.stack? = some h → d.Failed (d.outcomeOn h op) ∨
      (d.outcomeOn h op).2.failure? = none ∧ d.Changes op (d.outcomeOn h op).1 := by
    intro h hop
    unfold outcomeOn
    cases hr : d.refusal? h with
    | some f => exact .inl ⟨f, failure?_refuse hop f, code_of_refusal hr, rfl⟩
    | none => exact looked_cases d hop
  cases op with
  | resume h =>
    simp only [outcome]
    cases hc : d.lookup h with
    | none => exact .inl ⟨_, rfl, by simp [CommandFailure.code], rfl⟩
    | some c => exact .inr ⟨rfl, c, hc, rfl⟩
  | load | evaluate | listVariables | fetchVariable => exact hstack rfl
  | setVariable => exact .inl ⟨_, rfl, by simp [CommandFailure.code], rfl⟩
  | _ => exact .inr ⟨rfl, rfl⟩

section Flags

variable (d : Debugger ⟨Script.host, logic, sink⟩) (lock : Option Hold) (b : Bool)

theorem answer_looked_congr (op : Operation) :
    ({ d with dispatch := lock, reload := b }.looked op).2 = (d.looked op).2 := by
  cases op with
  | fetchVariable kind h frame index levels =>
    simp only [looked]
    cases d.host.variableAt? kind h frame index <;> rfl
  | _ => rfl

theorem answer_outcomeOn_congr (h : Handle) (op : Operation) :
    ({ d with dispatch := lock, reload := b }.outcomeOn h op).2 = (d.outcomeOn h op).2 := by
  have hrefusal : { d with dispatch := lock, reload := b }.refusal? h = d.refusal? h := rfl
  unfold outcomeOn
  rw [hrefusal]
  cases d.refusal? h with
  | some f => rfl
  | none => exact answer_looked_congr d lock b op

/-- The answer has nothing to do with the lock, or with whether the client logic is loaded anew. -/
theorem answer_outcome_congr (op : Operation) :
    ({ d with dispatch := lock, reload := b }.outcome op).2 = (d.outcome op).2 := by
  cases op with
  | resume h =>
    have hlookup : { d with dispatch := lock, reload := b }.lookup h = d.lookup h := rfl
    simp only [outcome, hlookup]
    cases d.lookup h <;> rfl
  | load | evaluate | listVariables | fetchVariable => exact answer_outcomeOn_congr d lock b _ _
  | _ => rfl

end Flags

end Debugger

end ScriptDebug
