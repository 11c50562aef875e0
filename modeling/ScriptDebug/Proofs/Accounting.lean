import ScriptDebug.Proofs.Alone
import ScriptDebug.Proofs.Outcome
import ScriptDebug.Rehearsal.Host
import ScriptDebug.Rehearsal.Sink

/-!
# Accounts of reloads and failure notices

Calls are handed off to the client logic one after the other, with requests for a reload between
them and from inside them. What each of them does is written down as signs, and all of them
together are the account of a run.

1. `Acts` is the work of a thread with its signs, and `Logic.Calls` a call of client logic that may
   ask for a reload but uses nothing else. A hand-off does just what `Logic.HandsOff` says of the
   client logic (`acts_handOff_iff`), and the client logic is called by nothing but the hand-offs of
   the debugger's operations and of hook events (`handsOffOnly`).
2. After every run the logic is due for a load if the account says so (`Accounts.reload_iff_due`):
   when nothing was handed off yet, when the last hand-off failed, or when a load was asked for
   since the last one began.
3. So the account tells of each hand-off whether the logic is loaded before it, whether it is
   called, what the client is sent and what a request is answered (`accounts_balance`). The sink is
   moved by what the client is sent and by nothing else (`HandedOff`), and has no part in the
   account (`Accounts.of_sink`).
-/

namespace ScriptDebug

variable {S : Setup}

/-! ## Signs -/

/-- **Sign** of what becomes of the client logic and its client. -/
inductive Sign where
  /-- A reload is asked for. -/
  | ask
  /-- The client logic is about to be loaded anew. -/
  | load
  /-- The client logic is called, other than to load it. -/
  | call (call : LogicCall)
  /-- A load or a call has ended. -/
  | ended (r : Except LogicFailure Verdict)
  /-- A text is given to the sink. -/
  | send (text : String)

namespace Sign

def isCall : Sign → Bool
  | .call _ => true
  | _ => false

/-- Whether the failure notice is given to the sink. -/
def isNotice : Sign → Bool
  | .send text => text == failureNotice
  | _ => false

end Sign

/-- The signs of an action of a thread, whose last answer is given. -/
def Action.signs (d : Debugger S) (last : Answer) : Action S → List Sign
  | .begin .reload => [.ask]
  | .begin (.send text) => [.send text]
  | .enter call => if d.reload then [.load] else [.call call]
  | .reloaded call =>
    match last with
    | .verdict (.error _) => []
    | _ => [.call call]
  | .logic p =>
    match (S.logic.step d.logic p last).2 with
    | .use .. => []
    | .done r => [.ended r]
  | .sendFailure => [.send failureNotice]
  | _ => []

namespace Debugger

/-- **Acts.** Some work is done with signs, and leaves an answer. -/
inductive Acts (t : ThreadId) :
    Debugger S → Answer → List (Action S) → List Sign → Debugger S → Answer → Prop
  | nil (d : Debugger S) (last : Answer) : Acts t d last [] [] d last
  | cons {d d' e : Debugger S} {a : Action S} {rest todo : List (Action S)} {last mid ans : Answer}
      {signs : List Sign} (hact : d.act t last a = some (d', todo, mid))
      (hrest : Acts t d' mid (todo ++ rest) signs e ans) :
      Acts t d last (a :: rest) (a.signs d last ++ signs) e ans

variable {d e f : Debugger S} {t : ThreadId} {a : Action S} {as bs todo : List (Action S)}
  {last mid ans : Answer} {signs signs' : List Sign}

theorem Acts.works (h : Acts t d last as signs e ans) : Works t d last as e ans := by
  induction h with
  | nil d last => exact works_nil d last
  | cons hact _ ih => exact .cons hact ih

theorem Acts.append (h : Acts t d last as signs e mid) (h' : Acts t e mid bs signs' f ans) :
    Acts t d last (as ++ bs) (signs ++ signs') f ans := by
  induction h with
  | nil => exact h'
  | cons hact _ ih =>
    rw [List.append_assoc, List.cons_append]
    exact .cons hact (by rw [← List.append_assoc]; exact ih h')

theorem Acts.of_act (hact : d.act t last a = some (e, todo, mid))
    (h : Acts t e mid todo signs f ans) :
    Acts t d last [a] (a.signs d last ++ signs) f ans :=
  .cons hact (by rw [List.append_nil]; exact h)

theorem Acts.first (h : Acts t d last (a :: as) signs f ans) : ∃ e todo mid signs',
    d.act t last a = some (e, todo, mid) ∧ Acts t e mid (todo ++ as) signs' f ans := by
  cases h with
  | cons hact hrest => exact ⟨_, _, _, _, hact, hrest⟩

/-- Work is done piece by piece. -/
theorem Acts.split (as : List (Action S)) (h : Acts t d last (as ++ bs) signs f ans) :
    ∃ signs₁ e mid signs₂,
    Acts t d last as signs₁ e mid ∧ Acts t e mid bs signs₂ f ans ∧ signs = signs₁ ++ signs₂ := by
  generalize hall : as ++ bs = all at h
  induction h generalizing as with
  | nil d last =>
    obtain ⟨rfl, rfl⟩ := List.append_eq_nil_iff.1 hall
    exact ⟨[], d, last, [], .nil d last, .nil d last, rfl⟩
  | @cons d d' e a rest todo last mid ans signs hact hrest ih =>
    cases as with
    | nil =>
      obtain rfl : bs = a :: rest := hall
      exact ⟨[], d, last, _, .nil d last, .cons hact hrest, rfl⟩
    | cons b as =>
      obtain ⟨rfl, rfl⟩ := List.cons_eq_cons.1 hall
      obtain ⟨signs₁, e₁, mid₁, signs₂, hfirst, hsecond, rfl⟩ :=
        ih (todo ++ as) (List.append_assoc ..)
      exact ⟨_, e₁, mid₁, signs₂, .cons hact hfirst, hsecond, (List.append_assoc ..).symm⟩

theorem Acts.unique {last₂ : Answer} (h : Acts t d last as signs e ans)
    (h' : Acts t d last as signs' f last₂) :
    signs = signs' ∧ e = f ∧ ans = last₂ := by
  induction h generalizing signs' with
  | nil => cases h'; exact ⟨rfl, rfl, rfl⟩
  | cons hact _ ih =>
    cases h' with
    | cons hact' hrest' =>
      obtain ⟨rfl, rfl, rfl⟩ : _ ∧ _ ∧ _ := by simpa using hact.symm.trans hact'
      obtain ⟨rfl, rfl, rfl⟩ := ih hrest'
      exact ⟨rfl, rfl, rfl⟩

end Debugger

/-! ## Calls that may ask for a reload -/

/-- Client logic that uses no operation but to ask for a reload. -/
def Logic.OnlyReloads (L : Logic) : Prop :=
  ∀ s p last op next, (L.step s p last).2 = .use op next → op = .reload

/-- **Calls.** From a point on, a call asks for a reload so many times and ends in a verdict. -/
inductive Logic.Calls (L : Logic) :
    L.State → L.Point → Answer → Nat → L.State → Except LogicFailure Verdict → Prop
  | done {s s' : L.State} {p : L.Point} {last : Answer} {r : Except LogicFailure Verdict}
      (h : L.step s p last = (s', .done r)) : Calls L s p last 0 s' r
  | ask {s s' s'' : L.State} {p next : L.Point} {last : Answer} {n : Nat}
      {r : Except LogicFailure Verdict} (h : L.step s p last = (s', .use .reload next))
      (hrest : Calls L s' next .none n s'' r) :
      Calls L s p last (n + 1) s'' r

/-- The signs of a call from inside. -/
def inside (n : Nat) (r : Except LogicFailure Verdict) : List Sign :=
  List.replicate n .ask ++ [.ended r]

namespace LogicCall

/-- What reports how a call has ended. -/
def report : LogicCall → Action S
  | .breakpoint .. => .reportHandled
  | .request _ => .reportText
  | _ => .reportNotice

def isBreakpoint : LogicCall → Bool
  | .breakpoint .. => true
  | _ => false

/-- What a call that was handed off is answered. -/
def answer (r : Except LogicFailure Verdict) : LogicCall → Answer
  | .breakpoint .. => .handled (r.map (·.handled))
  | .request _ => .text (match r with | .ok v => v.text | .error _ => "null")
  | _ => .none

/-- Whether the client is told of a failure. -/
def tells (r : Except LogicFailure Verdict) (call : LogicCall) : Bool :=
  !r.isOk && !call.isBreakpoint

/-- The signs of the report on a call. -/
def notices (r : Except LogicFailure Verdict) (call : LogicCall) : List Sign :=
  if call.tells r then [.send failureNotice] else []

variable {call : LogicCall} {r : Except LogicFailure Verdict} {x : Sign}

theorem eq_of_mem_notices (h : x ∈ call.notices r) : x = .send failureNotice := by
  unfold notices at h
  split at h
  · exact List.mem_singleton.1 h
  · cases h

theorem not_mem_notices (h : x ≠ .send failureNotice) : x ∉ call.notices r :=
  fun hx => h (eq_of_mem_notices hx)

theorem countP_notices {p : Sign → Bool} (h : p (.send failureNotice) = false) :
    (call.notices r).countP p = 0 := by
  refine List.countP_eq_zero.2 fun x hx => ?_
  rw [eq_of_mem_notices hx, h]
  exact Bool.false_ne_true

theorem tells_iff : call.tells r = true ↔ r.isOk = false ∧ call.isBreakpoint = false := by
  simp [tells]

theorem countP_isNotice_notices :
    (call.notices r).countP Sign.isNotice =
    if r.isOk = false ∧ call.isBreakpoint = false then 1 else 0 := by
  have hnotice : Sign.isNotice (.send failureNotice) = true := beq_self_eq_true failureNotice
  simp only [notices, tells_iff]
  split
  · exact List.countP_singleton.trans (if_pos hnotice)
  · rfl

end LogicCall

/-- **Hand-off.** The actions of a call that the debugger makes, and of the report on it. -/
def Action.handOff (call : LogicCall) : List (Action S) := Action.dispatch call ++ [call.report]

/-- **Hands off.** What a call that is handed off does with the client logic, from its state and
from whether it is due for a load. -/
inductive Logic.HandsOff (L : Logic) (call : LogicCall) :
    L.State → Bool → List Sign → L.State → Bool → Except LogicFailure Verdict → Prop
  | spoilt {s s' : L.State} {n : Nat} {f : LogicFailure}
      (h : L.Calls s (L.enter .reload) .none n s' (.error f)) :
      HandsOff L call s true (.load :: inside n (.error f)) s' true (.error f)
  | loaded {s s' s'' : L.State} {n m : Nat} {v : Verdict} {r : Except LogicFailure Verdict}
      (h : L.Calls s (L.enter .reload) .none n s' (.ok v))
      (h' : L.Calls s' (L.enter call) .none m s'' r) :
      HandsOff L call s true (.load :: inside n (.ok v) ++ .call call :: inside m r) s''
        (decide (0 < n + m)) r
  | called {s s' : L.State} {m : Nat} {r : Except LogicFailure Verdict}
      (h : L.Calls s (L.enter call) .none m s' r) :
      HandsOff L call s false (.call call :: inside m r) s' (decide (0 < m)) r

namespace Debugger

variable {d e : Debugger S} {t : ThreadId} {as : List (Action S)} {last ans : Answer}
  {signs : List Sign} {call : LogicCall} {p : S.logic.Point} {n : Nat} {s : S.logic.State}
  {r : Except LogicFailure Verdict} {flag : Bool}

theorem acts_logic (h : S.logic.Calls d.logic p last n s r) : Acts t d last [.logic p] (inside n r)
    { d with logic := s, reload := d.reload || decide (0 < n) } (.verdict r) := by
  generalize hs : d.logic = s₀ at h
  induction h generalizing d with
  | @done s₀ s p last r h =>
    subst hs
    have hact : d.act t last (.logic p) = some ({ d with logic := s }, [], .verdict r) := by
      simp only [act, h]
    have hsigns : (Action.logic p).signs d last = [.ended r] := by simp only [Action.signs, h]
    have hacts := Acts.of_act hact (.nil _ _)
    rw [hsigns] at hacts
    simpa [inside] using hacts
  | @ask s₀ s₁ s p next last n r h _ ih =>
    subst hs
    have hact : d.act t last (.logic p) =
        some ({ d with logic := s₁ }, [.begin .reload, .logic next], .none) := by
      simp only [act, h]
    have hsigns : (Action.logic p).signs d last = [] := by simp only [Action.signs, h]
    have hask : ({ d with logic := s₁ } : Debugger S).act t .none (.begin .reload) =
        some ({ d with logic := s₁, reload := true }, [], .none) := rfl
    have hacts :=
      Acts.of_act hact (.cons hask (ih (d := { d with logic := s₁, reload := true }) rfl))
    rw [hsigns] at hacts
    simpa [inside, List.replicate_succ, Action.signs] using hacts

/-- What client logic that only asks for reloads is at is a point,
or a request behind which it goes on. -/
theorem Acts.calls_or_ask (hS : S.logic.OnlyReloads) (h : Acts t d last as signs e ans) :
    (∀ p, as = [.logic p] → ∃ n s r, S.logic.Calls d.logic p last n s r) ∧
      ∀ p, as = [.begin .reload, .logic p] → ∃ n s r, S.logic.Calls d.logic p .none n s r := by
  induction h with
  | nil => simp
  | @cons d d' e a rest todo last mid ans signs hact _ ih =>
    refine ⟨fun p has => ?_, fun p has => ?_⟩
    · obtain ⟨rfl, rfl⟩ := List.cons_eq_cons.1 has
      cases hstep : S.logic.step d.logic p last with
      | mk s move =>
        cases move with
        | done r => exact ⟨0, s, r, .done hstep⟩
        | use op next =>
          obtain rfl : op = .reload := hS d.logic p last op next (by rw [hstep])
          simp only [act, hstep] at hact
          cases hact
          obtain ⟨n, s', r, hrest⟩ := ih.2 next rfl
          exact ⟨n + 1, s', r, .ask hstep hrest⟩
    · obtain ⟨rfl, rfl⟩ := List.cons_eq_cons.1 has
      cases hact
      exact ih.1 p rfl

theorem Acts.calls (hS : S.logic.OnlyReloads) (h : Acts t d last [.logic p] signs e ans) :
    ∃ n s r, S.logic.Calls d.logic p last n s r :=
  (h.calls_or_ask hS).1 p rfl

/-- The state that the report on a call leaves. -/
def reported (d : Debugger S) (call : LogicCall) (r : Except LogicFailure Verdict) : Debugger S :=
  { d with
    reload := d.reload || !r.isOk
    sink := if call.tells r then (S.sink.send d.sink failureNotice).1 else d.sink }

theorem acts_sendFailure (d : Debugger S) (t : ThreadId) :
    Acts t d .none [.sendFailure] [.send failureNotice]
    { d with sink := (S.sink.send d.sink failureNotice).1 } .none :=
  .of_act rfl (.nil _ _)

theorem acts_report (d : Debugger S) (t : ThreadId) (call : LogicCall)
    (r : Except LogicFailure Verdict) :
    Acts t d (.verdict r) [call.report] (call.notices r) (d.reported call r) (call.answer r) := by
  cases r with
  | ok v =>
    have hnone : call.tells (.ok v) = false := rfl
    have hd : d.reported call (.ok v) = d := by simp [reported, hnone, Except.isOk, Except.toBool]
    rw [LogicCall.notices, hnone, hd]
    cases call <;> exact .of_act rfl (.nil d _)
  | error f =>
    have hdue : d.reported call (.error f) = { d with
        reload := true, sink :=
          if call.tells (.error f) then (S.sink.send d.sink failureNotice).1 else d.sink } :=
      congrArg (fun due => { d.reported call (.error f) with reload := due }) (Bool.or_true _)
    rw [hdue]
    cases call with
    | breakpoint h name ev =>
      exact .of_act rfl (.nil _ _)
    | request j =>
      have hgive : Acts t
          { d with reload := true, sink := (S.sink.send d.sink failureNotice).1 } .none
          [.give (.text "null")] []
          { d with reload := true, sink := (S.sink.send d.sink failureNotice).1 }
          (.text "null") := .of_act rfl (.nil _ _)
      exact .of_act rfl ((acts_sendFailure { d with reload := true } t).append hgive)
    | _ => exact .of_act rfl (acts_sendFailure { d with reload := true } t)

/-! ### Where hand-offs come from -/

variable {a : Action S} {todo : List (Action S)}

/-- The name of a context, as its calls of the client logic have it. -/
def nameOf (d : Debugger S) (c : ContextId) : String := ((d.contexts[c]?).map (·.name)).getD ""

/-- **Brings.** The operations that hand a call off, with the call;
and a hook event that goes on. -/
inductive Brings (d : Debugger S) : Action S → LogicCall → Prop
  | start {h : Handle} (name : String) (hfree : d.lookup h = none) :
      Brings d (.begin (.start h name)) (.added h name)
  | stop {h : Handle} {c : ContextId} (hc : d.lookup h = some c) :
      Brings d (.begin (.stop h)) (.removed h (d.nameOf c))
  | message (text : String) : Brings d (.begin (.message text)) (.message text)
  | request (j : Json) : Brings d (.begin (.request j)) (.request j)
  | breakpoint {h : Handle} {c : ContextId} (report : Hook.Report) (hc : d.lookup h = some c) :
      Brings d (.begin (.breakpoint h report)) (.breakpoint h (d.nameOf c) (.ofReport report))
  | hook {h : Handle} {c : ContextId} {report : Hook.Report} (hc : d.lookup h = some c)
      (hgoes : (Hook.Event.ofReport report).escalates = true) :
      Brings d (.locate h report) (.breakpoint h (d.nameOf c) (.ofReport report))

theorem brings_of_enter (hact : d.act t last a = some (e, todo, ans)) (hmem : .enter call ∈ todo) :
    d.Brings a call := by
  have hleads := act_leads hact
  cases a with
  | begin op =>
    cases op with
    | start h name =>
      simp only [act, beginOperation] at hact
      split at hact
      · cases hact
        cases hmem
      · rename_i hfree
        cases hact
        obtain rfl : call = .added h name := by simpa [Action.dispatch] using hmem
        exact .start name hfree
    | stop h =>
      simp only [act, beginOperation] at hact
      split at hact
      · cases hact
        cases hmem
      · rename_i c hc
        cases hact
        obtain rfl : call = .removed h (d.nameOf c) := by simpa [Action.dispatch, nameOf] using hmem
        exact .stop hc
    | message text =>
      obtain rfl := hleads
      obtain rfl : call = .message text := by simpa [Action.dispatch] using hmem
      exact .message text
    | request j =>
      obtain rfl := hleads
      obtain rfl : call = .request j := by simpa [Action.dispatch] using hmem
      exact .request j
    | breakpoint h report =>
      simp only [act, beginOperation] at hact
      split at hact
      · cases hact
        cases hmem
      · rename_i c hc
        cases hact
        obtain rfl : call = .breakpoint h (d.nameOf c) (.ofReport report) := by
          simpa [Action.dispatch, nameOf] using hmem
        exact .breakpoint report hc
    | _ => exfalso; grind [Leads, OperationLeads]
  | locate h report =>
    simp only [act] at hact
    split at hact
    · cases hact
      cases hmem
    · rename_i c hc
      split at hact
      · rename_i hgoes
        cases hact
        obtain rfl : call = .breakpoint h (d.nameOf c) (.ofReport report) := by
          simpa [Action.dispatch, nameOf] using hmem
        exact .hook hc hgoes
      · cases hact
        cases hmem
  | resumeEach cs n => cases cs <;> exfalso <;> grind [Leads]
  | describe cs done => cases cs <;> exfalso <;> grind [Leads]
  | inspect k op => cases op <;> exfalso <;> grind [Leads, Operation.look]
  | _ => exfalso; grind [Leads]

theorem Brings.handOff (hb : d.Brings a call) (hact : d.act t last a = some (e, todo, ans)) :
    call ≠ .reload ∧ ∃ pre post, todo = pre ++ (Action.handOff call ++ post) := by
  cases hb with
  | start name hfree =>
    simp only [act, beginOperation, hfree] at hact
    cases hact
    exact ⟨by simp, [], [.give (.flag true)], rfl⟩
  | @stop h c hc =>
    simp only [act, beginOperation, hc] at hact
    cases hact
    exact ⟨by simp, [], [.close c, .give (.flag true)], rfl⟩
  | message | request =>
    cases hact
    exact ⟨by simp, [], [], rfl⟩
  | breakpoint report hc =>
    simp only [act, beginOperation, hc] at hact
    cases hact
    exact ⟨by simp, [], [], rfl⟩
  | @hook h c report hc hgoes =>
    simp only [act, hc, hgoes, if_true] at hact
    cases hact
    exact ⟨by simp, [.lock], [.decide c (.ofReport report)], rfl⟩

/-- **Hand-offs only.** The client logic is called, other than to load it, by the hand-offs that the
operations of the debugger and the hook events bring, and those are whole. -/
def HandsOffOnly (S : Setup) : Prop :=
  ∀ (d e : Debugger S) (t : ThreadId) (last ans : Answer) (a : Action S) (todo : List (Action S))
    (call : LogicCall), d.act t last a = some (e, todo, ans) →
    (.enter call ∈ todo ↔ d.Brings a call) ∧
      (d.Brings a call → call ≠ .reload ∧ ∃ pre post, todo = pre ++ (Action.handOff call ++ post))

theorem handsOffOnly (S : Setup) : HandsOffOnly S := by
  intro d e t last ans a todo call hact
  refine ⟨⟨brings_of_enter hact, fun hb => ?_⟩, fun hb => hb.handOff hact⟩
  obtain ⟨-, pre, post, rfl⟩ := hb.handOff hact
  simp [Action.handOff, Action.dispatch]

/-! ### How a hand-off is done -/

theorem acts_called (ho : d.Open t) (he : e.dispatch = (d.locked t).dispatch)
    (h : S.logic.Calls e.logic (S.logic.enter call) .none n s r) :
    Acts t e .none [.logic (S.logic.enter call), .unlock] (inside n r)
      { e with logic := s, reload := e.reload || decide (0 < n), dispatch := d.dispatch }
        (.verdict r) := by
  have hunlock : Acts t { e with logic := s, reload := e.reload || decide (0 < n) }
      (.verdict r) [.unlock] []
      { e with logic := s, reload := e.reload || decide (0 < n), dispatch := d.dispatch }
      (.verdict r) :=
    .of_act (act_unlock ho (e := { e with logic := s, reload := e.reload || decide (0 < n) }) he _)
      (.nil _ _)
  have hacts := (acts_logic h).append hunlock
  rwa [List.append_nil] at hacts

/-- A hand-off is done as the client logic does it, if no other thread holds the lock. -/
theorem acts_handOff (ho : d.Open t) (h : S.logic.HandsOff call d.logic d.reload signs s flag r)
    (last : Answer) :
    Acts t d last (Action.handOff call) (signs ++ call.notices r)
      (reported { d with logic := s, reload := flag } call r) (call.answer r) := by
  have hlock : Acts t d last [.lock] [] (d.locked t) last := .of_act (act_lock ho last) (.nil _ _)
  suffices henter : Acts t (d.locked t) last [.enter call] signs
      { d with logic := s, reload := flag } (.verdict r) from
    (hlock.append henter).append (acts_report _ t call r)
  generalize hs : d.logic = s₀ at h
  generalize hflag : d.reload = due at h
  subst hs
  have hload : due = true → ∀ {signs e}, Acts t { d.locked t with reload := false } .none
      [.logic (S.logic.enter .reload), .reloaded call] signs e (.verdict r) →
      Acts t (d.locked t) last [.enter call] (.load :: signs) e (.verdict r) := by
    rintro rfl signs e hacts
    have hact : (d.locked t).act t last (.enter call) = some ({ d.locked t with reload := false },
        [.logic (S.logic.enter .reload), .reloaded call], .none) := by
      simp only [act, locked, hflag, if_true]
    have hsigns : (Action.enter call).signs (d.locked t) last = [.load] := by
      simp only [Action.signs, locked, hflag, if_true]
    have hacts := Acts.of_act hact hacts
    rwa [hsigns] at hacts
  cases h with
  | spoilt h =>
    rename_i n f
    have hspoilt : Acts t { d.locked t with logic := s, reload := false || decide (0 < n) }
        (.verdict (.error f)) [.reloaded call] [] { d with logic := s, reload := true }
        (.verdict (.error f)) :=
      .of_act rfl
        (.of_act (act_unlock ho (e := { d.locked t with logic := s, reload := true }) rfl _)
          (.nil _ _))
    have hacts := (acts_logic (d := { d.locked t with reload := false }) (t := t) h).append hspoilt
    rw [List.append_nil] at hacts
    exact hload rfl hacts
  | loaded h h' =>
    rename_i s₁ n m v
    have hloaded : Acts t { d.locked t with logic := s₁, reload := false || decide (0 < n) }
        (.verdict (.ok v)) [.reloaded call] (.call call :: inside m r) { d with
          logic := s, reload := false || decide (0 < n) || decide (0 < m) } (.verdict r) :=
      .of_act rfl
        (acts_called ho
          (e := { d.locked t with logic := s₁, reload := false || decide (0 < n) }) rfl h')
    have hacts :=
      hload rfl ((acts_logic (d := { d.locked t with reload := false }) (t := t) h).append hloaded)
    have hsum : (false || decide (0 < n) || decide (0 < m)) = decide (0 < n + m) := by
      rw [Bool.false_or, ← Bool.decide_or]
      exact decide_eq_decide.2 (by omega)
    rw [hsum] at hacts
    exact hacts
  | called h =>
    rename_i m
    have hact : (d.locked t).act t last (.enter call) =
        some (d.locked t, [.logic (S.logic.enter call), .unlock], .none) := by
      simp [act, locked, hflag]
    have hsigns : (Action.enter call).signs (d.locked t) last = [.call call] := by
      simp [Action.signs, locked, hflag]
    have hacts := Acts.of_act hact (acts_called ho rfl h)
    have hdue : ((d.locked t).reload || decide (0 < m)) = decide (0 < m) := by
      rw [show (d.locked t).reload = false from hflag, Bool.false_or]
    rw [hsigns, hdue] at hacts
    exact hacts

theorem open_of_act_lock (h : d.act t last .lock = some (e, todo, ans)) : d.Open t := by
  intro hold hhold
  simp only [act, hhold] at h
  split at h
  · assumption
  · cases h

theorem Acts.handsOff (hS : S.logic.OnlyReloads)
    (h : Acts t d last (Action.handOff call) signs e ans) :
    d.Open t ∧ ∃ signs s flag r, S.logic.HandsOff call d.logic d.reload signs s flag r := by
  obtain ⟨d₁, todo, mid, _, hlock, hacts⟩ := h.first
  have ho : d.Open t := open_of_act_lock hlock
  refine ⟨ho, ?_⟩
  cases (act_lock ho last).symm.trans hlock
  obtain ⟨d₂, todo, mid, _, henter, hacts⟩ := Acts.first (a := .enter call) hacts
  simp only [act] at henter
  split at henter
  · rename_i hdue
    have hdue : d.reload = true := hdue
    cases henter
    obtain ⟨_, d₁, mid, _, hload, hrest, -⟩ := Acts.split [.logic (S.logic.enter .reload)] hacts
    obtain ⟨n, s, r, hcalls⟩ := hload.calls hS
    obtain ⟨-, rfl, rfl⟩ := hload.unique (acts_logic hcalls)
    rw [hdue]
    cases r with
    | error f => exact ⟨_, s, true, .error f, .spoilt hcalls⟩
    | ok v =>
      obtain ⟨d₃, todo, mid, _, hloaded, hacts⟩ := Acts.first (a := .reloaded call) hrest
      cases hloaded
      obtain ⟨_, d₂, mid, _, hcall, -, -⟩ := Acts.split [.logic (S.logic.enter call)] hacts
      obtain ⟨m, s', r, hcalls'⟩ := hcall.calls hS
      exact ⟨_, s', _, r, .loaded hcalls hcalls'⟩
  · rename_i hdue
    have hdue : d.reload = false := Bool.eq_false_iff.2 hdue
    cases henter
    obtain ⟨_, d₁, mid, _, hcall, -, -⟩ := Acts.split [.logic (S.logic.enter call)] hacts
    obtain ⟨m, s, r, hcalls⟩ := hcall.calls hS
    rw [hdue]
    exact ⟨_, s, _, r, .called hcalls⟩

/-- **A hand-off** is done if no other thread holds the lock,
and just as the client logic does it. -/
theorem acts_handOff_iff (hS : S.logic.OnlyReloads) :
    Acts t d last (Action.handOff call) signs e ans ↔
    d.Open t ∧ ∃ inner s flag r, S.logic.HandsOff call d.logic d.reload inner s flag r ∧
      signs = inner ++ call.notices r ∧
      e = reported { d with logic := s, reload := flag } call r ∧ ans = call.answer r := by
  constructor
  · intro h
    obtain ⟨ho, inner, s, flag, r, hoff⟩ := h.handsOff hS
    obtain ⟨rfl, rfl, rfl⟩ := h.unique (acts_handOff ho hoff last)
    exact ⟨ho, inner, s, flag, r, hoff, rfl, rfl, rfl⟩
  · rintro ⟨ho, inner, s, flag, r, hoff, rfl, rfl, rfl⟩
    exact acts_handOff ho hoff last

end Debugger

/-! ## Accounts -/

/-- **Entry** of an account. -/
inductive Entry where
  /-- A call was handed off, with signs, and answered. -/
  | handOff (call : LogicCall) (signs : List Sign) (answer : Answer)
  /-- A reload was asked for. -/
  | ask

namespace Entry

def signs : Entry → List Sign
  | .handOff _ signs _ => signs
  | .ask => [.ask]

def isHandOff : Entry → Bool
  | .handOff .. => true
  | .ask => false

/-- Whether a load or a call failed in a hand-off. -/
def Failed (x : Entry) : Prop := ∃ f, .ended (.error f) ∈ x.signs

end Entry

/-- **Account** of a run, its entries in their order. -/
abbrev Account := List Entry

namespace Account

/-- All signs of an account. -/
def signs (log : Account) : List Sign := log.flatMap Entry.signs

/-- A reload was asked for, and no load has begun since. -/
def Asked (signs : List Sign) : Prop := ∃ pre post, signs = pre ++ .ask :: post ∧ .load ∉ post

/-- **Due.** What makes the client logic due for a load: nothing was handed off yet, or the last
hand-off failed, or a reload was asked for since the last load began. -/
def Due (log : Account) : Prop :=
  (∀ x ∈ log, x.isHandOff = false) ∨
    (∃ before x after, log = before ++ x :: after ∧ x.isHandOff = true ∧ x.Failed ∧
      ∀ y ∈ after, y.isHandOff = false) ∨
    Asked log.signs

variable {l m : List Sign} {log before after : Account} {x : Entry}

theorem append_eq_concat (h : before ++ after = log ++ [x]) :
    after = [] ∧ before = log ++ [x] ∨ ∃ rest, after = rest ++ [x] ∧ before ++ rest = log := by
  rcases List.eq_nil_or_concat after with rfl | ⟨rest, y, rfl⟩
  · exact .inl ⟨rfl, (List.append_nil _).symm.trans h⟩
  · rw [List.concat_eq_append, ← List.append_assoc] at h
    obtain ⟨rfl, hlast⟩ := List.append_inj' h rfl
    exact .inr ⟨rest, by rw [List.concat_eq_append, hlast], rfl⟩

theorem asked_append : Asked (l ++ m) ↔ Asked m ∨ .load ∉ m ∧ Asked l := by
  constructor
  · rintro ⟨pre, post, heq, hpost⟩
    rcases List.append_eq_append_iff.1 heq with ⟨as, rfl, rfl⟩ | ⟨as, rfl, hm⟩
    · exact .inl ⟨as, post, rfl, hpost⟩
    cases as with
    | nil => exact .inl ⟨[], post, hm.symm, hpost⟩
    | cons b as =>
      obtain ⟨rfl, rfl⟩ := List.cons_eq_cons.1 hm
      simp only [List.append_eq, List.mem_append, not_or] at hpost
      exact .inr ⟨hpost.2, pre, as, rfl, hpost.1⟩
  · rintro (⟨pre, post, rfl, hpost⟩ | ⟨hm, pre, post, rfl, hpost⟩)
    · exact ⟨l ++ pre, post, (List.append_assoc ..).symm, hpost⟩
    · refine ⟨pre, post ++ m, List.append_assoc .., ?_⟩
      rw [List.mem_append, not_or]
      exact ⟨hpost, hm⟩

theorem asked_of_not_mem (h : .load ∉ m) : Asked m ↔ .ask ∈ m := by
  constructor
  · rintro ⟨pre, post, rfl, -⟩
    exact List.mem_append_right _ List.mem_cons_self
  · intro hm
    obtain ⟨pre, post, rfl⟩ := List.append_of_mem hm
    exact ⟨pre, post, rfl, fun hpost => h (List.mem_append_right _ (List.mem_cons_of_mem _ hpost))⟩

theorem asked_load (h : .load ∉ m) : Asked (.load :: m) ↔ .ask ∈ m := by
  have hnone : ¬ Asked [.load] := by
    rintro ⟨pre, post, heq, -⟩
    have hmem : Sign.ask ∈ [Sign.load] := by
      rw [heq]
      exact List.mem_append_right _ List.mem_cons_self
    simp at hmem
  rw [← List.singleton_append, asked_append, asked_of_not_mem h]
  exact or_iff_left fun hl => hnone hl.2

@[simp] theorem signs_append (l m : Account) : signs (l ++ m) = signs l ++ signs m :=
  List.flatMap_append

@[simp] theorem signs_singleton (x : Entry) : signs [x] = x.signs := List.flatMap_singleton ..

theorem due_nil : Due [] := .inl (by simp)

theorem due_ask (log : Account) : Due (log ++ [.ask]) := by
  refine .inr (.inr ⟨log.signs, [], ?_, by simp⟩)
  rw [signs_append, signs_singleton]
  rfl

theorem due_handOff (hx : x.isHandOff = true) :
    Due (log ++ [x]) ↔ x.Failed ∨ Asked (log.signs ++ x.signs) := by
  unfold Due
  rw [signs_append, signs_singleton]
  constructor
  · rintro (hnone | ⟨before, y, after, heq, -, hfailed, hafter⟩ | hasked)
    · have hno := hnone x (List.mem_append_right _ List.mem_cons_self)
      rw [hx] at hno
      cases hno
    · rcases List.append_eq_append_iff.1 heq with ⟨as, rfl, has⟩ | ⟨as, rfl, has⟩
      · cases as with
        | nil =>
          obtain ⟨rfl, -⟩ := List.cons_eq_cons.1 has
          exact .inl hfailed
        | cons b as => simp at has
      · cases as with
        | nil =>
          obtain ⟨rfl, -⟩ := List.cons_eq_cons.1 has
          exact .inl hfailed
        | cons b as =>
          obtain ⟨rfl, rfl⟩ := List.cons_eq_cons.1 has
          have hno := hafter x (List.mem_append_right _ List.mem_cons_self)
          rw [hx] at hno
          cases hno
    · exact .inr hasked
  · rintro (hfailed | hasked)
    · exact .inr (.inl ⟨log, x, [], rfl, hx, hfailed, by simp⟩)
    · exact .inr (.inr hasked)

end Account

/-! ## What a hand-off signs -/

section HandsOff

variable {L : Logic} {call : LogicCall} {s s' : L.State} {due flag : Bool} {inner : List Sign}
  {n : Nat} {x : Sign} {r : Except LogicFailure Verdict}

@[simp] theorem mem_inside : x ∈ inside n r ↔ x = .ask ∧ 0 < n ∨ x = .ended r := by
  simp [inside, List.mem_replicate, and_comm, Nat.pos_iff_ne_zero]

theorem countP_inside {p : Sign → Bool} (hask : p .ask = false) (hended : p (.ended r) = false) :
    (inside n r).countP p = 0 := by
  simp [inside, List.countP_replicate, hask, hended]

@[simp] theorem countP_isCall_inside : (inside n r).countP Sign.isCall = 0 := countP_inside rfl rfl

@[simp] theorem countP_isNotice_inside : (inside n r).countP Sign.isNotice = 0 :=
  countP_inside rfl rfl

/-- **Spoilt.** The signs of a load that fails. -/
def Spoilt (signs : List Sign) : Prop := ∃ n f post, signs = .load :: inside n (.error f) ++ post

theorem inside_append_inj {n m : Nat} {r r' : Except LogicFailure Verdict} {l l' : List Sign}
    (h : inside n r ++ l = inside m r' ++ l') : r = r' := by
  induction n generalizing m with
  | zero =>
    cases m with
    | zero => simpa [inside] using (List.cons_eq_cons.1 h).1
    | succ m => simp [inside, List.replicate_succ] at h
  | succ n ih =>
    cases m with
    | zero => simp [inside, List.replicate_succ] at h
    | succ m =>
      refine ih (m := m) ?_
      simpa [inside, List.replicate_succ] using h

theorem not_spoilt_of_ok {v : Verdict} {post : List Sign} :
    ¬ Spoilt (.load :: inside n (.ok v) ++ post) := by
  rintro ⟨m, f, post', heq⟩
  have hr := inside_append_inj (List.cons_eq_cons.1 heq).2
  cases hr

theorem not_spoilt_of_call {post : List Sign} : ¬ Spoilt (.call call :: post) := by
  rintro ⟨m, f, post', heq⟩
  cases heq

/-- The call returned a verdict to its hand-off. -/
def Returned (call : LogicCall) (v : Verdict) (signs : List Sign) : Prop :=
  ∃ pre n, signs = pre ++ .call call :: inside n (.ok v)

/-- **Balanced.** What is accounted for a hand-off behind the account so far. -/
structure Balanced (before : Account) (call : LogicCall) (signs : List Sign)
    (ans : Answer) : Prop where
  /-- The client logic is loaded if the account makes it due. -/
  loads : .load ∈ signs ↔ before.Due
  /-- It is loaded once, before anything else. -/
  first : ∀ pre post, signs = pre ++ .load :: post → pre = [] ∧ .load ∉ post
  /-- If the load fails, the logic is not called. -/
  spoilt : Spoilt signs → signs.countP Sign.isCall = 0
  /-- Else it is called once, with what was handed off. -/
  called : ¬ Spoilt signs → .call call ∈ signs ∧ signs.countP Sign.isCall = 1
  /-- The failure notice is sent once for a failure, unless an event was handed off. -/
  told : Entry.Failed (.handOff call signs ans) → call.isBreakpoint = false →
    signs.countP Sign.isNotice = 1
  /-- It is not sent otherwise. -/
  untold : ¬ Entry.Failed (.handOff call signs ans) ∨ call.isBreakpoint = true →
    signs.countP Sign.isNotice = 0
  /-- A request is answered `null` if it failed or the logic returned that. -/
  null : ∀ j, call = .request j → (ans = .text "null" ↔
    Entry.Failed (.handOff call signs ans) ∨ ∃ v, Returned call v signs ∧ v.text = "null")

theorem Returned.eq {pre : List Sign} {n : Nat} {r : Except LogicFailure Verdict} {v : Verdict}
    (h : Returned call v (pre ++ .call call :: inside n r)) : r = .ok v := by
  obtain ⟨pre', m, heq⟩ := h
  have hlast := congrArg List.getLast? heq
  simpa [inside, List.getLast?_append, List.getLast?_cons] using hlast

namespace Logic.HandsOff

variable (h : L.HandsOff call s due inner s' flag r)

include h

theorem load_split :
    ∃ rest, inner ++ call.notices r = (if due then [.load] else []) ++ rest ∧ .load ∉ rest ∧
    (.ask ∈ rest ↔ .ask ∈ inner) := by
  have hload : .load ∉ call.notices r := LogicCall.not_mem_notices (by simp)
  have hask : .ask ∉ call.notices r := LogicCall.not_mem_notices (by simp)
  cases h with
  | spoilt => exact ⟨_, rfl, by simp [hload], by simp [hask]⟩
  | loaded => exact ⟨_, rfl, by simp [hload], by simp [hask]⟩
  | called => exact ⟨_, rfl, by simp [hload], by simp [hask]⟩

theorem load_iff : .load ∈ inner ++ call.notices r ↔ due = true := by
  obtain ⟨rest, hsplit, hrest, -⟩ := h.load_split
  rw [hsplit]
  cases due <;> simp [hrest]

theorem load_first {pre post : List Sign} (heq : inner ++ call.notices r = pre ++ .load :: post) :
    pre = [] ∧ .load ∉ post := by
  obtain ⟨rest, hsplit, hrest, -⟩ := h.load_split
  have hlater : ∀ pre, rest ≠ pre ++ .load :: post := by
    rintro pre rfl
    exact hrest (List.mem_append_right _ List.mem_cons_self)
  rw [heq] at hsplit
  cases due with
  | false => exact absurd hsplit.symm (hlater pre)
  | true =>
    cases pre with
    | nil =>
      obtain ⟨-, rfl⟩ := List.cons_eq_cons.1 hsplit
      exact ⟨rfl, hrest⟩
    | cons x pre => exact absurd (List.cons_eq_cons.1 hsplit).2.symm (hlater pre)

theorem asked_iff {l : List Sign} : Account.Asked (l ++ (inner ++ call.notices r)) ↔
    .ask ∈ inner ∨ due = false ∧ Account.Asked l := by
  obtain ⟨rest, hsplit, hrest, hask⟩ := h.load_split
  rw [hsplit, ← hask, Account.asked_append]
  cases due with
  | true => simp [Account.asked_load hrest]
  | false => simp [Account.asked_of_not_mem hrest, hrest]

theorem failed_iff {ans : Answer} :
    Entry.Failed (.handOff call (inner ++ call.notices r) ans) ↔ r.isOk = false := by
  have hr : ∀ r : Except LogicFailure Verdict, (∃ f, r = .error f) ↔ r.isOk = false := by
    rintro (f | v) <;> simp [Except.isOk, Except.toBool]
  have hnone : ∀ f, .ended (.error f) ∉ call.notices r :=
    fun f => LogicCall.not_mem_notices (by simp)
  simp only [Entry.Failed, Entry.signs, List.mem_append, hnone, or_false]
  cases h <;> simp [← hr, eq_comm]

theorem flag_iff : (flag || !r.isOk) = true ↔ r.isOk = false ∨ .ask ∈ inner := by
  cases h with
  | spoilt => simp [Except.isOk, Except.toBool]
  | loaded h h' =>
    rename_i n m v
    have hsum : 0 < n + m ↔ 0 < n ∨ 0 < m := by omega
    simp [hsum, or_comm]
  | called => simp [or_comm]

theorem calls : (Spoilt (inner ++ call.notices r) ∧ inner.countP Sign.isCall = 0 ∧ r.isOk = false) ∨
    ¬ Spoilt (inner ++ call.notices r) ∧
      ∃ pre m, inner = pre ++ .call call :: inside m r ∧ pre.countP Sign.isCall = 0 := by
  cases h with
  | spoilt h =>
    rename_i n f
    exact .inl
      ⟨⟨n, f, _, rfl⟩, by simp only [List.countP_cons, countP_isCall_inside, Sign.isCall]; rfl, rfl⟩
  | loaded h h' =>
    rename_i n m v
    refine .inr ⟨?_, .load :: inside n (.ok v), m, rfl, ?_⟩
    · rw [List.append_assoc]
      exact not_spoilt_of_ok
    · simp only [List.countP_cons, countP_isCall_inside, Sign.isCall]
      rfl
  | called h =>
    rename_i m
    exact .inr ⟨not_spoilt_of_call, [], m, rfl, rfl⟩

theorem countP_isNotice : (inner ++ call.notices r).countP Sign.isNotice =
    if r.isOk = false ∧ call.isBreakpoint = false then 1 else 0 := by
  have hinner : inner.countP Sign.isNotice = 0 := by
    cases h <;>
      simp only [List.cons_append, List.countP_append, List.countP_cons, countP_isNotice_inside,
        Sign.isNotice] <;> rfl
  rw [List.countP_append, hinner, Nat.zero_add, LogicCall.countP_isNotice_notices]

/-- What is accounted for a hand-off is balanced, if the account so far says whether the
logic is due for a load. -/
theorem balanced {before : Account} (hdue : due = true ↔ before.Due) :
    Balanced before call (inner ++ call.notices r) (call.answer r) := by
  have hnotcall : (call.notices r).countP Sign.isCall = 0 := LogicCall.countP_notices rfl
  constructor
  case loads => rw [h.load_iff, hdue]
  case first => exact fun pre post heq => h.load_first heq
  case spoilt =>
    intro hspoilt
    rcases h.calls with ⟨-, hnone, -⟩ | ⟨hnot, -⟩
    · rw [List.countP_append, hnone, hnotcall]
    · exact absurd hspoilt hnot
  case called =>
    intro hnot
    rcases h.calls with ⟨hspoilt, -⟩ | ⟨-, pre, m, rfl, hpre⟩
    · exact absurd hspoilt hnot
    · exact ⟨by simp, by simp [List.countP_append, List.countP_cons, hpre, hnotcall, Sign.isCall]⟩
  case told =>
    intro hfailed hevent
    rw [h.countP_isNotice, if_pos ⟨h.failed_iff.1 hfailed, hevent⟩]
  case untold =>
    intro hnone
    rw [h.countP_isNotice, if_neg]
    rintro ⟨hfailed, hevent⟩
    rcases hnone with hnone | hnone
    · exact hnone (h.failed_iff.2 hfailed)
    · rw [hnone] at hevent
      cases hevent
  case null =>
    rintro j rfl
    rw [h.failed_iff]
    cases r with
    | error f => simp [LogicCall.answer, Except.isOk, Except.toBool]
    | ok v =>
      rcases h.calls with ⟨-, -, hfailed⟩ | ⟨-, pre, m, rfl, -⟩
      · cases hfailed
      · have hnotices : LogicCall.notices (.ok v) (.request j) = [] := rfl
        simp only [LogicCall.answer, Answer.text.injEq, Except.isOk, Except.toBool,
          Bool.true_eq_false, false_or, hnotices, List.append_nil]
        constructor
        · exact fun htext => ⟨v, ⟨pre, m, rfl⟩, htext⟩
        · rintro ⟨v', hreturned, htext⟩
          obtain rfl : v = v' := Except.ok.inj hreturned.eq
          exact htext

end Logic.HandsOff

end HandsOff

namespace Debugger

variable {d e f : Debugger S} {t : ThreadId} {last ans : Answer} {signs : List Sign}
  {call : LogicCall} {log before after : Account} {x : Entry}

/-! ## Runs -/

/-- **Run with an account.** Calls are handed off and reloads asked for, one after the other.
Between them anything may become of the state, but that the client logic comes to be due for a load,
or is no longer so. -/
inductive Accounts : Debugger S → Account → Debugger S → Prop
  | start (d : Debugger S) : Accounts d [] d
  | handOff {d e f : Debugger S} {log : Account} {t : ThreadId} {last ans : Answer}
      {call : LogicCall} {signs : List Sign} (h : Accounts d log e) (hcall : call ≠ .reload)
      (hacts : Acts t e last (Action.handOff call) signs f ans) :
      Accounts d (log ++ [.handOff call signs ans]) f
  | ask {d e f : Debugger S} {log : Account} {t : ThreadId} {last ans : Answer} {signs : List Sign}
      (h : Accounts d log e) (hacts : Acts t e last [.begin .reload] signs f ans) :
      Accounts d (log ++ [.ask]) f
  | between {d e f : Debugger S} {log : Account} (h : Accounts d log e)
      (hsame : f.reload = e.reload) :
      Accounts d log f

theorem Accounts.append (h : Accounts d before e) (h' : Accounts e after f) :
    Accounts d (before ++ after) f := by
  induction h' with
  | start => rwa [List.append_nil]
  | handOff _ hcall hacts ih =>
    rw [← List.append_assoc]
    exact .handOff ih hcall hacts
  | ask _ hacts ih =>
    rw [← List.append_assoc]
    exact .ask ih hacts
  | between _ hsame ih => exact .between ih hsame

theorem accounts_append_iff :
    Accounts d (before ++ after) f ↔ ∃ e, Accounts d before e ∧ Accounts e after f := by
  refine ⟨fun h => ?_, fun ⟨e, hbefore, hafter⟩ => hbefore.append hafter⟩
  generalize hlog : before ++ after = log at h
  induction h generalizing after with
  | start =>
    obtain ⟨rfl, rfl⟩ := List.append_eq_nil_iff.1 hlog
    exact ⟨d, .start d, .start d⟩
  | @handOff e f log t last ans call signs h hcall hacts ih =>
    rcases Account.append_eq_concat hlog with ⟨rfl, rfl⟩ | ⟨after, rfl, hrest⟩
    · exact ⟨f, .handOff h hcall hacts, .start f⟩
    · obtain ⟨g, hbefore, hafter⟩ := ih hrest
      exact ⟨g, hbefore, .handOff hafter hcall hacts⟩
  | @ask e f log t last ans signs h hacts ih =>
    rcases Account.append_eq_concat hlog with ⟨rfl, rfl⟩ | ⟨after, rfl, hrest⟩
    · exact ⟨f, .ask h hacts, .start f⟩
    · obtain ⟨g, hbefore, hafter⟩ := ih hrest
      exact ⟨g, hbefore, .ask hafter hacts⟩
  | between h hsame ih =>
    obtain ⟨g, hbefore, hafter⟩ := ih hlog
    exact ⟨g, hbefore, .between hafter hsame⟩

theorem Accounts.of_concat (h : Accounts d (before ++ [.handOff call signs ans]) f) :
    ∃ t e last e', Accounts d before e ∧ Acts t e last (Action.handOff call) signs e' ans ∧
      Accounts e' [] f := by
  generalize hlog : before ++ [.handOff call signs ans] = log at h
  induction h with
  | start => simp at hlog
  | @handOff e f log t last ans call signs h hcall hacts ih =>
    obtain ⟨rfl, hx⟩ := List.append_inj' hlog rfl
    cases hx
    exact ⟨t, e, last, f, h, hacts, .start f⟩
  | ask h hacts ih => cases (List.append_inj' hlog rfl).2
  | between h hsame ih =>
    obtain ⟨t, e₁, last, e₂, hrun, hdone, hafter⟩ := ih hlog
    exact ⟨t, e₁, last, e₂, hrun, hdone, .between hafter hsame⟩

theorem Accounts.split (h : Accounts d (before ++ .handOff call signs ans :: after) f) :
    ∃ t e last e', Accounts d before e ∧ Acts t e last (Action.handOff call) signs e' ans ∧
      Accounts e' after f := by
  rw [← List.singleton_append, ← List.append_assoc] at h
  obtain ⟨g, hfirst, hafter⟩ := accounts_append_iff.1 h
  obtain ⟨t, e, last, e', hbefore, hacts, hrest⟩ := hfirst.of_concat
  exact ⟨t, e, last, e', hbefore, hacts, hrest.append hafter⟩

/-- **The flag** says whether the account makes the logic due for a load. -/
theorem Accounts.reload_iff_due (hS : S.logic.OnlyReloads) (hd : d.reload = true)
    (h : Accounts d log e) :
    e.reload = true ↔ log.Due := by
  induction h with
  | start => simp [hd, Account.due_nil]
  | @handOff e f log t last ans call signs h hcall hacts ih =>
    obtain ⟨-, inner, s, flag, r, hoff, rfl, rfl, rfl⟩ := (acts_handOff_iff hS).1 hacts
    rw [Account.due_handOff rfl, hoff.failed_iff]
    show (flag || !r.isOk) = true ↔ _ ∨ Account.Asked (log.signs ++ (inner ++ call.notices r))
    rw [hoff.flag_iff, hoff.asked_iff]
    have hloaded : ¬ (e.reload = false ∧ Account.Asked log.signs) := by
      rintro ⟨hflag, hasked⟩
      rw [ih.2 (.inr (.inr hasked))] at hflag
      cases hflag
    rw [or_iff_left hloaded]
  | ask h hacts ih =>
    obtain ⟨-, rfl, -⟩ := hacts.unique (.of_act rfl (.nil _ _))
    exact iff_of_true rfl (Account.due_ask _)
  | between h hsame ih => rw [hsame, ih]

/-- A run goes on with every hand-off that the client logic comes to the end of. -/
theorem Accounts.goes_on {inner : List Sign} {s s' : S.logic.State} {due flag : Bool}
    {r : Except LogicFailure Verdict} (h : d.Accounts log e) (hcall : call ≠ .reload)
    (hlogic : e.logic = s) (hdue : e.reload = due)
    (hoff : S.logic.HandsOff call s due inner s' flag r) :
    ∃ e', d.Accounts (log ++ [.handOff call (inner ++ call.notices r) (call.answer r)]) e' ∧
      e'.logic = s' ∧ e'.reload = (flag || !r.isOk) := by
  subst hlogic hdue
  -- whoever holds the lock gives it back first
  have hfree : d.Accounts log { e with dispatch := none } := .between h rfl
  have hacts :=
    acts_handOff (d := { e with dispatch := none }) (t := 0) (open_of_free rfl) hoff .none
  exact ⟨_, .handOff hfree hcall hacts, rfl, rfl⟩

/-- **The sink has no part in it:** the same account can be run over any other sink,
and any other host. -/
theorem Accounts.of_sink {host host' : Host} {logic : Logic} {sink sink' : Sink}
    {d e : Debugger ⟨host, logic, sink⟩} {d' : Debugger ⟨host', logic, sink'⟩}
    (hS : logic.OnlyReloads) (hlogic : d'.logic = d.logic) (hreload : d'.reload = d.reload)
    (h : d.Accounts log e) :
    ∃ e', d'.Accounts log e' ∧ e'.logic = e.logic ∧ e'.reload = e.reload := by
  induction h with
  | start => exact ⟨d', .start d', hlogic, hreload⟩
  | @handOff e f log t last ans call signs h hcall hacts ih =>
    obtain ⟨e', he', hl, hr⟩ := ih
    obtain ⟨-, inner, s, flag, r, hoff, rfl, rfl, rfl⟩ := (acts_handOff_iff hS).1 hacts
    exact he'.goes_on hcall hl hr hoff
  | @ask e f log t last ans signs h hacts ih =>
    obtain ⟨e', he', hl, -⟩ := ih
    obtain ⟨-, rfl, -⟩ := hacts.unique (.of_act rfl (.nil _ _))
    have hask : Acts t e' last [.begin .reload] _ _ _ := .of_act rfl (.nil _ _)
    exact ⟨_, .ask he' hask, hl, rfl⟩
  | @between e f log h hsame ih =>
    obtain ⟨e', he', hl, hr⟩ := ih
    exact ⟨{ e' with logic := f.logic }, .between he' rfl, rfl, hr.trans hsame.symm⟩

/-- **Handed off.** A call was handed off between two states,
and what became of the sink meanwhile. -/
structure HandedOff (d : Debugger S) (call : LogicCall) (signs : List Sign) (ans : Answer)
    (e : Debugger S) : Prop where
  /-- A thread did the work of the hand-off, with the signs. -/
  done : ∃ t last, Acts t d last (Action.handOff call) signs e ans ∧
    Works t d last (Action.handOff call) e ans
  /-- The sink was given the failure notice once for a failure, unless an event was handed off. -/
  told : Entry.Failed (.handOff call signs ans) → call.isBreakpoint = false →
    e.sink = (S.sink.send d.sink failureNotice).1
  /-- It was given nothing otherwise. -/
  untold : ¬ Entry.Failed (.handOff call signs ans) ∨ call.isBreakpoint = true → e.sink = d.sink

theorem Acts.handedOff (hS : S.logic.OnlyReloads)
    (h : Acts t d last (Action.handOff call) signs e ans) :
    d.HandedOff call signs ans e := by
  obtain ⟨-, inner, s, flag, r, hoff, rfl, rfl, rfl⟩ := (acts_handOff_iff hS).1 h
  refine ⟨⟨t, last, h, h.works⟩, fun hfailed hevent => ?_, fun hnone => ?_⟩
  · have htells : call.tells r = true := LogicCall.tells_iff.2 ⟨hoff.failed_iff.1 hfailed, hevent⟩
    exact if_pos htells
  · have htells : ¬ call.tells r = true := by
      rw [LogicCall.tells_iff]
      rintro ⟨hfailed, hevent⟩
      rcases hnone with hnone | hnone
      · exact hnone (hoff.failed_iff.2 hfailed)
      · rw [hnone] at hevent
        cases hevent
    exact if_neg htells

/-- **The accounts balance** behind every run that starts with the logic not loaded yet, over every
sink: every call that was handed off is balanced, its hand-off moved the sink by the failure notices
that are accounted for it and by nothing else, and there is no way to the client logic but
hand-offs. -/
theorem accounts_balance (hS : S.logic.OnlyReloads) (hd : d.reload = true)
    (h : d.Accounts (before ++ .handOff call signs ans :: after) e) :
    Balanced before call signs ans ∧
      (∃ e₁ e₂, d.Accounts before e₁ ∧ e₁.HandedOff call signs ans e₂ ∧ e₂.Accounts after e) ∧
      HandsOffOnly S ∧
      ∀ (sink : Sink) (d' : Debugger ⟨S.host, S.logic, sink⟩), d'.logic = d.logic →
        d'.reload = true → ∃ e', d'.Accounts (before ++ .handOff call signs ans :: after) e' := by
  obtain ⟨t, e₁, last, e₂, hbefore, hacts, hafter⟩ := h.split
  refine ⟨?_, ⟨e₁, e₂, hbefore, hacts.handedOff hS, hafter⟩, handsOffOnly S,
    fun sink d' hlogic hreload => ?_⟩
  · obtain ⟨-, inner, s, flag, r, hoff, rfl, -, rfl⟩ := (acts_handOff_iff hS).1 hacts
    exact hoff.balanced (hbefore.reload_iff_due hS hd)
  · obtain ⟨e', he', -, -⟩ := Accounts.of_sink hS hlogic (hreload.trans hd.symm) h
    exact ⟨e', he'⟩

end Debugger

/-! ## A run -/

namespace Rehearsal

/-- What client logic of moods does next. -/
inductive Mood where
  | fail
  | ask
  | say (text : String)

/-- Client logic that follows its moods, one after the other, however it is called. -/
def moody : Logic where
  State := List Mood
  Point := Unit
  enter _ := ()
  step moods _ _ :=
    match moods with
    | [] => ([], .done (.ok {}))
    | .fail :: moods => (moods, .done (.error (.failed "mood")))
    | .ask :: moods => (moods, .use .reload ())
    | .say text :: moods => (moods, .done (.ok { text }))

theorem moody_onlyReloads : moody.OnlyReloads := by
  rintro (- | ⟨- | - | text, moods⟩) p last op next h <;> cases h
  rfl

/-- A debugger over moody logic, and over a sink that fails. -/
def moodyDebugger : Debugger ⟨host, moody, sink⟩ where
  host := ({} : PlannedHost)
  logic := [.fail, .say "", .ask, .say "null", .say "", .fail]
  sink := ({ mode := .broken } : SinkState)
  threads := [{}]

/-- A load that fails, and a request that asks for a reload and is answered `null`. -/
def moodyBefore : Account :=
  [.handOff (.message "a") [.load, .ended (.error (.failed "mood")), .send failureNotice] .none,
    .handOff (.request .null)
      [.load, .ended (.ok { text := "" }), .call (.request .null), .ask,
        .ended (.ok { text := "null" })]
      (.text "null")]

/-- A request that fails behind a load. -/
def moodySigns : List Sign :=
  [.load, .ended (.ok { text := "" }), .call (.request .null), .ended (.error (.failed "mood")),
    .send failureNotice]

theorem moody_accounts :
    ∃ e, moodyDebugger.Accounts
      (moodyBefore ++ [.handOff (.request .null) moodySigns (.text "null")]) e := by
  have hspoilt : moody.HandsOff (.message "a") moodyDebugger.logic true
      [.load, .ended (.error (.failed "mood"))]
      [.say "", .ask, .say "null", .say "", .fail] true (.error (.failed "mood")) :=
      .spoilt (.done rfl)
  have hasks : moody.HandsOff (.request .null) [.say "", .ask, .say "null", .say "", .fail] true
      [.load, .ended (.ok { text := "" }), .call (.request .null), .ask,
        .ended (.ok { text := "null" })]
      [.say "", .fail] true (.ok { text := "null" }) := .loaded (.done rfl) (.ask rfl (.done rfl))
  have hfails : moody.HandsOff (.request .null) [.say "", .fail] true
      [.load, .ended (.ok { text := "" }), .call (.request .null), .ended (.error (.failed "mood"))]
      [] false (.error (.failed "mood")) := .loaded (.done rfl) (.done rfl)
  obtain ⟨e, he, hlogic, hdue⟩ :=
    (Debugger.Accounts.start moodyDebugger).goes_on (by simp) rfl rfl hspoilt
  obtain ⟨e', he', hlogic', hdue'⟩ := he.goes_on (by simp) hlogic hdue hasks
  obtain ⟨e'', he'', -, -⟩ := he'.goes_on (by simp) hlogic' hdue' hfails
  exact ⟨e'', he''⟩

/-- The last hand-off is loaded for, as it was asked for from inside the one before. -/
theorem moody_balanced : moody.OnlyReloads ∧ moodyDebugger.reload = true ∧
    ∃ e, moodyDebugger.Accounts
      (moodyBefore ++ [.handOff (.request .null) moodySigns (.text "null")]) e ∧
      Balanced moodyBefore (.request .null) moodySigns (.text "null") ∧
      (∃ e₁ e₂, moodyDebugger.Accounts moodyBefore e₁ ∧
        e₁.HandedOff (.request .null) moodySigns (.text "null") e₂ ∧ e₂.Accounts [] e) ∧
      Debugger.HandsOffOnly ⟨host, moody, sink⟩ ∧
      ∀ (sink : Sink) (d : Debugger ⟨host, moody, sink⟩), d.logic = moodyDebugger.logic →
        d.reload = true →
        ∃ e, d.Accounts
          (moodyBefore ++ [.handOff (.request .null) moodySigns (.text "null")]) e := by
  obtain ⟨e, he⟩ := moody_accounts
  exact ⟨moody_onlyReloads, rfl, e, he, Debugger.accounts_balance moody_onlyReloads rfl he⟩

end Rehearsal

end ScriptDebug
