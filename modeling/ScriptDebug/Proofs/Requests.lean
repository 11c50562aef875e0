import ScriptDebug.Proofs.Asked
import ScriptDebug.Proofs.Calling
import ScriptDebug.Rehearsal.Sink

/-!
# One reply to every message

Whatever a client sends, over the script machine and with a sink that takes its messages, is
answered by one reply.

1. `requested` tells the state behind a request and the value or refusal of its reply, as a function
   of the state that it comes in. A command fails with a code that is not zero, or makes its change
   (`commanded_cases`).
2. The steps of a call lead there, whichever way the reply goes (`works_answer`).
3. So a message and the same request from a caller get the same reply and leave the same state
   (`works_message`, `works_request`).
-/

namespace ScriptDebug.Debugger

open Protocol (Command Refusal Reply Route Point readCommand answerValue deliver answer)

variable {sink : Sink} {d e : Debugger (Protocol.setup Script.host sink)} {t : ThreadId}
  {last ans : Answer} {op : Operation} {j : Json} {route : Route} {r : Reply} {p : Point}

/-! ## Commands -/

/-- The state behind a command, and what the reply shows. -/
def commanded (d : Debugger (Protocol.setup Script.host sink)) :
    Command → Debugger (Protocol.setup Script.host sink) × Except Refusal Json
  | .use op => ((d.outcome op).1, answerValue (d.outcome op).2)
  | .setBreakpoint b => (d.setBreakpoints (d.breakpoints.add b).1, .ok b.json)
  | .clearBreakpoint b =>
    (d.setBreakpoints (d.breakpoints.remove b).1,
      if (d.breakpoints.remove b).2 then .ok b.json else .error .noBreakpoint)
  | .clearAll => (d.setBreakpoints {}, .ok .null)
  | .listBreakpoints => (d, .ok (.array (d.breakpoints.all.map Breakpoint.json)))

/-- The state behind a request, and what the reply shows. -/
def requested (d : Debugger (Protocol.setup Script.host sink)) (j : Json) :
    Debugger (Protocol.setup Script.host sink) × Except Refusal Json :=
  match readCommand j with
  | .error refusal => (d, .error refusal)
  | .ok command => d.commanded command

/-- **Changes of a command** that does not fail. -/
def Alters (d : Debugger (Protocol.setup Script.host sink)) (command : Command)
    (e : Debugger (Protocol.setup Script.host sink)) : Prop :=
  match command with
  | .use op => d.Changes op e
  | .setBreakpoint b => e = d.setBreakpoints (d.breakpoints.add b).1
  | .clearBreakpoint b => e = d.setBreakpoints (d.breakpoints.remove b).1
  | .clearAll => e = d.setBreakpoints {}
  | .listBreakpoints => e = d

theorem answerValue_of_failure {f : CommandFailure} (h : ans.failure? = some f) :
    answerValue ans = .error (.failed f) := by
  cases ans with
  | command r | node r | slots r =>
    cases r with
    | error g =>
      cases h
      rfl
    | ok v => cases h
  | _ => cases h

theorem answerValue_of_success (h : ans.failure? = none) : ∃ v, answerValue ans = .ok v := by
  cases ans with
  | command r | node r | slots r =>
    cases r with
    | error f => cases h
    | ok v => exact ⟨_, rfl⟩
  | _ => exact ⟨_, rfl⟩

/-- **A command** fails, and leaves all but the form of the table as it is,
or it makes its change. -/
theorem commanded_cases (d : Debugger (Protocol.setup Script.host sink)) (command : Command) :
    (∃ refusal, (d.commanded command).2 = .error refusal ∧ refusal.code ≠ 0 ∧
      ((d.commanded command).1 = d ∨ ∃ b, command = .clearBreakpoint b ∧
        (d.breakpoints.remove b).2 = false ∧
        (d.commanded command).1 = d.setBreakpoints (d.breakpoints.remove b).1)) ∨
    ∃ v, (d.commanded command).2 = .ok v ∧ d.Alters command (d.commanded command).1 := by
  cases command with
  | use op =>
    rcases d.outcome_cases op with ⟨f, hf, hcode, hsame⟩ | ⟨hnone, hchanges⟩
    · exact .inl ⟨.failed f, answerValue_of_failure hf, hcode, .inl hsame⟩
    · obtain ⟨v, hv⟩ := answerValue_of_success hnone
      exact .inr ⟨v, hv, hchanges⟩
  | clearBreakpoint b =>
    cases hwas : (d.breakpoints.remove b).2 with
    | false =>
      exact .inl ⟨.noBreakpoint, by simp only [commanded, hwas]; rfl, by simp [Refusal.code],
        .inr ⟨b, rfl, hwas, rfl⟩⟩
    | true => exact .inr ⟨b.json, by simp only [commanded, hwas]; rfl, rfl⟩
  | setBreakpoint b => exact .inr ⟨_, rfl, rfl⟩
  | clearAll => exact .inr ⟨_, rfl, rfl⟩
  | listBreakpoints => exact .inr ⟨_, rfl, rfl⟩

/-! ## The steps of an answer -/

/-- A reply on its way: sent, if it goes out as a message. -/
def delivered (e : Debugger (Protocol.setup Script.host sink)) (route : Route) (r : Reply) :
    Debugger (Protocol.setup Script.host sink) :=
  match route with
  | .message => e.told r.json.text
  | .caller => e

/-- What a call ends with behind a reply. -/
def verdictOf (r : Reply) : Route → Verdict
  | .message => {}
  | .caller => { text := r.json.text }

theorem works_deliver (route : Route) (table : BreakpointTable)
    (haccept : route = .message → (sink.send d.sink r.json.text).2 = .ok ())
    (hstep : Protocol.step d.breakpoints p last = (table, deliver route r)) :
    Works t d last [.logic p] ((d.setBreakpoints table).delivered route r)
      (.verdict (.ok (verdictOf r route))) := by
  cases route with
  | caller => exact works_done hstep
  | message =>
    have hsend := works_sendJson (t := t) hstep
    rw [haccept rfl] at hsend
    exact hsend

theorem resumed_keeps (d : Debugger (Protocol.setup Script.host sink)) (c : ContextId) :
    (d.resumed c).sink = d.sink ∧ (d.resumed c).dispatch = d.dispatch ∧
    (d.resumed c).reload = d.reload := by
  unfold resumed
  split <;> exact ⟨rfl, rfl, rfl⟩

/-- No operation that a client may ask for sends anything or keeps the lock, and one of them has the
client logic loaded anew. -/
theorem outcome_keeps (d : Debugger (Protocol.setup Script.host sink)) (op : Operation) :
    (d.outcome op).1.sink = d.sink ∧ (d.outcome op).1.dispatch = d.dispatch ∧
      (d.reload = false → ((d.outcome op).1.reload = true ↔ op = .reload)) := by
  rcases d.outcome_cases op with ⟨f, hf, -, hsame⟩ | ⟨-, hchanges⟩
  · have hop : op ≠ .reload := by
      rintro rfl
      cases hf
    rw [hsame]
    exact ⟨rfl, rfl, fun hr => by simp [hr, hop]⟩
  · cases op with
    | resume h =>
      obtain ⟨c, -, he⟩ := hchanges
      obtain ⟨hsink, hlock, hreload⟩ := d.resumed_keeps c
      rw [he]
      exact ⟨hsink, hlock, fun hr => by simp [hreload, hr]⟩
    | reload => exact ⟨rfl, rfl, fun _ => by simp [outcome]⟩
    | _ =>
      rw [hchanges]
      exact ⟨rfl, rfl, fun hr => by simp [hr]⟩

theorem requested_keeps (d : Debugger (Protocol.setup Script.host sink)) (j : Json) :
    (d.requested j).1.sink = d.sink ∧ (d.requested j).1.dispatch = d.dispatch ∧
      (d.reload = false →
        ((d.requested j).1.reload = true ↔ readCommand j = .ok (.use .reload))) := by
  unfold requested
  cases readCommand j with
  | error refusal => exact ⟨rfl, rfl, fun hr => by simp [hr]⟩
  | ok command =>
    cases command with
    | use op => simpa [commanded] using d.outcome_keeps op
    | _ => exact ⟨rfl, rfl, fun hr => by simp [commanded, setBreakpoints, hr]⟩

/-- **An answer** comes to what is requested, whichever way its reply goes. -/
theorem works_answer (route : Route) (hopen : d.Open t)
    (haccept : route = .message → ∀ text, (sink.send d.sink text).2 = .ok ())
    (hstep : Protocol.step d.breakpoints p last = answer d.breakpoints route j) :
    Works t d last [.logic p] ((d.requested j).1.delivered route (.of (d.requested j).2 (some j)))
      (.verdict (.ok (verdictOf (.of (d.requested j).2 (some j)) route))) := by
  cases hread : readCommand j with
  | error refusal =>
    have hstep : Protocol.step d.breakpoints p last =
        (d.breakpoints, deliver route (.of (.error refusal) (some j))) := by
      rw [hstep, answer, hread]
    have hwant : d.requested j = (d, .error refusal) := by
      rw [requested, hread]
    rw [hwant]
    exact works_deliver route _ (fun hr => haccept hr _) hstep
  | ok command =>
    have hwant : d.requested j = d.commanded command := by
      rw [requested, hread]
    rw [hwant]
    cases command with
    | use op =>
      have hstep : Protocol.logic.step d.logic p last =
          (d.breakpoints, .use op (.answering route j)) := by
        refine hstep.trans ?_
        simp only [answer, hread]
        rfl
      have hact : d.act t last (.logic p) =
          some (d, [.begin op, .logic (.answering route j)], .none) := by
        simp only [act, hstep]
        rfl
      refine .of_act hact ((works_asked (Protocol.readCommand_use hread) hopen .none).append ?_)
      refine works_deliver route _ (fun hr => ?_) rfl
      rw [(d.outcome_keeps op).1]
      exact haccept hr _
    | _ =>
      refine works_deliver route _ (fun hr => haccept hr _) (hstep.trans ?_)
      rw [answer, hread]
      rfl

/-! ## Requests and messages -/

/-- The state behind a request. -/
def settled (d : Debugger (Protocol.setup Script.host sink)) (t : ThreadId) (j : Json) :
    Debugger (Protocol.setup Script.host sink) :=
  { ((d.entered t).requested j).1 with dispatch := d.dispatch }

/-- The reply to a request. -/
def replyTo (d : Debugger (Protocol.setup Script.host sink)) (t : ThreadId) (j : Json) : Reply :=
  .of ((d.entered t).requested j).2 (some j)

theorem request_of (x : Except Refusal Json) (q : Option Json) : (Reply.of x q).request = q := by
  cases x <;> rfl

theorem works_request (hopen : d.Open t) (j : Json) :
    Works t d last [.begin (.request j)] (d.settled t j) (.text (d.replyTo t j).json.text) := by
  have hcall : ∀ last, Works t (d.entered t) last [.logic (.called (.request j))]
      ((d.entered t).requested j).1 (.verdict (.ok { text := (d.replyTo t j).json.text })) :=
    fun last => works_answer .caller (open_locked d t) (fun hr => nomatch hr) rfl
  have hlock := ((d.entered t).requested_keeps j).2.1
  exact .of_act rfl ((works_dispatch hopen .none hcall hlock).append (works_act rfl))

theorem works_message (hopen : d.Open t) (haccept : ∀ text, (sink.send d.sink text).2 = .ok ())
    {text : String} (hparse : Json.parse text = .ok j) :
    Works t d last [.begin (.message text)]
      ((d.settled t j).delivered .message (d.replyTo t j)) .none := by
  have hcall : ∀ last, Works t (d.entered t) last [.logic (.called (.message text))]
      (((d.entered t).requested j).1.delivered .message (d.replyTo t j)) (.verdict (.ok {})) := by
    intro last
    refine works_answer .message (open_locked d t) (fun _ => haccept) ?_
    simp only [Protocol.step, Protocol.enter, hparse]
  have hlock := ((d.entered t).requested_keeps j).2.1
  exact .of_act rfl ((works_dispatch hopen .none hcall hlock).append (works_act rfl))

/-- The reply to a message that is no JSON. -/
def complaint (f : Json.ReadError) : Reply := .of (.error (.notJson f)) none

theorem works_malformed (hopen : d.Open t) (haccept : ∀ text, (sink.send d.sink text).2 = .ok ())
    {text : String} {f : Json.ReadError} (hparse : Json.parse text = .error f) :
    Works t d last [.begin (.message text)]
      ({ d with reload := false }.delivered .message (complaint f))
      .none := by
  have hcall : ∀ last, Works t (d.entered t) last [.logic (.called (.message text))]
      ((d.entered t).delivered .message (complaint f)) (.verdict (.ok {})) := by
    intro last
    have hstep : Protocol.step (d.entered t).breakpoints (.called (.message text)) last =
        (d.breakpoints, deliver .message (complaint f)) := by
      simp only [Protocol.step, Protocol.enter, hparse]
      rfl
    exact works_deliver .message d.breakpoints (fun _ => haccept _) hstep
  exact .of_act rfl ((works_dispatch hopen .none hcall rfl).append (works_act rfl))

/-! ## Success -/

/-- **Success** of a command: its operation ends with no failure,
or the breakpoint to clear is set. -/
def Succeeds (d : Debugger (Protocol.setup Script.host sink)) (t : ThreadId) : Command → Prop
  | .use op => ∃ e ans, d.Finishes t op e ans ∧ ans.failure? = none
  | .clearBreakpoint b => d.breakpoints.contains b = true
  | _ => True

theorem code_of_arguments {α : Type} {q : Protocol.Request} {read : Json → Json.Read α}
    {refusal : Refusal} (h : q.arguments read = .error refusal) : refusal.code ≠ 0 := by
  unfold Protocol.Request.arguments at h
  cases hr : read q.data <;> rw [hr] at h <;> cases h
  simp [Refusal.code]

theorem code_of_unread {refusal : Refusal} (h : readCommand j = .error refusal) :
    refusal.code ≠ 0 := by
  unfold readCommand at h
  cases hr : Protocol.Request.record.read j with
  | error f =>
    rw [hr] at h
    cases h
    simp [Refusal.code]
  | ok q =>
    rw [hr] at h
    have h : q.toCommand = .error refusal := h
    unfold Protocol.Request.toCommand Protocol.Request.listing Protocol.Request.showing
      Protocol.Request.setting at h
    simp only [bind, Except.bind, pure, Except.pure] at h
    split at h <;> (repeat' split at h) <;> cases h
    all_goals first | exact code_of_arguments ‹_› | simp [Refusal.code]

theorem code_replyTo (d : Debugger (Protocol.setup Script.host sink)) (t : ThreadId) (j : Json) :
    (d.replyTo t j).code = 0 ↔
      ∃ command v, readCommand j = .ok command ∧ ((d.entered t).commanded command).2 = .ok v := by
  unfold replyTo requested
  cases hread : readCommand j with
  | error refusal =>
    have hcode : (Reply.of (.error refusal) (some j)).code ≠ 0 := code_of_unread hread
    simp [hcode]
  | ok command =>
    rcases (d.entered t).commanded_cases command with ⟨refusal, href, hcode, -⟩ | ⟨v, hv, -⟩
    · have hcode : (Reply.of (.error refusal) (some j)).code ≠ 0 := hcode
      simp [href, hcode]
    · simp [hv, Reply.of]

theorem succeeds_iff (hopen : d.Open t) (ht : t < d.threads.length) {command : Command}
    (hread : readCommand j = .ok command) :
    d.Succeeds t command ↔ ∃ v, ((d.entered t).commanded command).2 = .ok v := by
  cases command with
  | use op =>
    have hworks : Works t d .none [.begin op] (d.outcome op).1 (d.outcome op).2 :=
      works_asked (Protocol.readCommand_use hread) hopen .none
    have hsame : ((d.entered t).outcome op).2 = (d.outcome op).2 :=
      d.answer_outcome_congr _ false op
    simp only [commanded, hsame]
    constructor
    · rintro ⟨e, ans, hfin, hnone⟩
      have hlen : t < (d.outcome op).1.threads.length := by
        rw [Reaches.threads hworks]
        exact ht
      obtain rfl := hfin.unique (hworks.finishes ht) hlen
      exact answerValue_of_success hnone
    · rintro ⟨v, hv⟩
      refine ⟨_, _, hworks.finishes ht, ?_⟩
      cases hf : (d.outcome op).2.failure? with
      | none => rfl
      | some f =>
        rw [answerValue_of_failure hf] at hv
        cases hv
  | clearBreakpoint b =>
    have hwas : ((d.entered t).breakpoints.remove b).2 = d.breakpoints.contains b :=
      BreakpointTable.snd_remove d.breakpoints b
    simp only [commanded, Succeeds, hwas]
    cases d.breakpoints.contains b <;> simp
  | _ => simp [commanded, Succeeds]

/-! ## Replies and the failure notice -/

theorem text_replyTo_ne (d : Debugger (Protocol.setup Script.host sink)) (t : ThreadId) (j : Json) :
    (d.replyTo t j).json.text ≠ failureNotice := by
  -- a reply that quotes its request has one member more, and so a comma more
  have hnotice : failureNotice.toList.count ',' = 2 := by decide +kernel
  have hreply : ∀ r : Reply, r.request.isSome = true → 3 ≤ r.json.text.toList.count ',' := by
    intro r hr
    obtain ⟨q, hq⟩ := Option.isSome_iff_exists.1 hr
    rw [Json.text, String.toList_ofList]
    unfold Reply.json
    simp [hq, Json.chars, Json.memberChars]
    omega
  intro heq
  have h3 := hreply (d.replyTo t j) (by rw [replyTo, request_of]; rfl)
  rw [heq, hnotice] at h3
  omega

theorem text_complaint_ne (f : Json.ReadError) : (complaint f).json.text ≠ failureNotice := by
  -- the wording starts with another letter
  have hnotice : failureNotice.toList[35]? = some 'U' := by decide +kernel
  have hreply : (complaint f).json.text.toList[35]? = some 'M' := by
    have hcode : (Json.ofInt (-1)).chars = ['-', '1'] := by decide +kernel
    have hword : (toString "Malformed request: ").toList = 'M' :: "alformed request: ".toList := by
      decide +kernel
    rw [Json.text, String.toList_ofList]
    unfold complaint Reply.json Reply.of Refusal.code Refusal.message
    simp [Json.memberChars, Json.stringChars, Json.escapeChar, Json.sorted,
      Json.chars, hcode, hword]
  intro heq
  rw [heq, hnotice] at hreply
  cases hreply

/-! ## One reply -/

/-- **One reply to every message.** A client sends a text while no other thread holds the lock, and
its thread is left alone. Then the sink takes one text, which is a reply and not the failure notice,
and which quotes the request if the text is JSON. Its code is zero if the request is read as a
command and that command succeeds. The same request from a caller is answered with the same reply,
and leaves the same state but for the sink; the client logic is loaded anew before its next call if
the command asks for that, and only then. -/
theorem one_reply_to_every_message (d : Debugger (Protocol.setup Script.host sink)) (t : ThreadId)
    (ht : t < d.threads.length) (hopen : d.Open t)
    (haccept : ∀ text, (sink.send d.sink text).2 = .ok ()) (text : String) :
    ∃ (r : Reply) (e : Debugger (Protocol.setup Script.host sink)),
      r.request = (Json.parse text).toOption ∧ r.json.text ≠ failureNotice ∧
      (r.code = 0 ↔ ∃ j command, Json.parse text = .ok j ∧ readCommand j = .ok command ∧
        d.Succeeds t command) ∧
      e.sink = d.sink ∧
      (e.reload = true ↔ ∃ j, Json.parse text = .ok j ∧ readCommand j = .ok (.use .reload)) ∧
      d.Finishes t (.message text) { e with sink := (sink.send d.sink r.json.text).1 } .none ∧
      ∀ j, Json.parse text = .ok j → d.Finishes t (.request j) e (.text r.json.text) := by
  cases hparse : Json.parse text with
  | error f =>
    refine ⟨complaint f, { d with reload := false }, rfl, text_complaint_ne f, ?_, rfl, ?_,
      (works_malformed hopen haccept hparse).finishes ht, fun j hj => nomatch hj⟩
    · simp [complaint, Reply.of, Refusal.code]
    · simp
  | ok j =>
    obtain ⟨hsink, -, hreload⟩ := (d.entered t).requested_keeps j
    have hmessage : (d.settled t j).delivered .message (d.replyTo t j) =
        { d.settled t j with sink := (sink.send d.sink (d.replyTo t j).json.text).1 } := by
      rw [← (show (d.settled t j).sink = d.sink from hsink)]
      rfl
    refine ⟨d.replyTo t j, d.settled t j, request_of _ _, text_replyTo_ne d t j, ?_, hsink, ?_,
      hmessage ▸ (works_message hopen haccept hparse).finishes ht, ?_⟩
    · rw [code_replyTo]
      constructor
      · rintro ⟨command, v, hread, hv⟩
        exact ⟨j, command, rfl, hread, (succeeds_iff hopen ht hread).2 ⟨v, hv⟩⟩
      · rintro ⟨_, command, ⟨⟩, hread, hsucc⟩
        obtain ⟨v, hv⟩ := (succeeds_iff hopen ht hread).1 hsucc
        exact ⟨command, v, hread, hv⟩
    · have hflag : (d.settled t j).reload = true ↔ readCommand j = .ok (.use .reload) := hreload rfl
      rw [hflag]
      simp
    · rintro _ ⟨⟩
      exact (works_request hopen j).finishes ht

end ScriptDebug.Debugger

namespace ScriptDebug.Rehearsal

/-- A session of the demo program, whose client is there. -/
def attendedSession : Debugger (Protocol.setup Script.host sink) where
  host := { program := .demo "demo.lua" }
  logic := ({} : BreakpointTable)
  sink := ({} : SinkState)
  threads := [{}]

/-- A message that is no request is answered, once. -/
theorem empty_object_answered : ∃ text, text ≠ failureNotice ∧
    ∃ n, SinkState.kept ((attendedSession.call 0 (.message "\x7b\x7d")).runThread 0 n).sink =
      [text] := by
  obtain ⟨r, e, -, hnotice, -, -, -, ⟨-, n, hn⟩, -⟩ :=
    Debugger.one_reply_to_every_message attendedSession 0 (by decide)
      (Debugger.open_of_free rfl) (fun _ => rfl) "\x7b\x7d"
  refine ⟨r.json.text, hnotice, n, ?_⟩
  rw [hn n (Nat.le_refl n)]
  rfl

end ScriptDebug.Rehearsal
