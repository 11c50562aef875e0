import ScriptDebug.Proofs.Freeze
import ScriptDebug.Protocol.Session

/-!
# Calls of the JSON protocol

What stands on an agenda above a call of the JSON protocol is what a client may ask for (`isAsked`),
and above an access to the host is only what the host raises on the way (`isRaised`): a hook event,
and the call of the client logic that decides about it. Neither starts, stops or closes anything.
-/

namespace ScriptDebug

/-- The collaborators of a debugger that speaks the JSON protocol. -/
abbrev Protocol.setup (host : Host) (sink : Sink) : Setup := ⟨host, Protocol.logic, sink⟩

/-- Whether a client may ask for an operation. -/
def Operation.isAsked : Operation → Bool
  | .contexts | .resume _ | .evaluate .. | .load .. | .listVariables .. | .fetchVariable ..
  | .setVariable .. | .reload => true
  | _ => false

namespace Protocol

theorem toCommand_use {r : Request} {op : Operation} (h : r.toCommand = .ok (.use op)) :
    op.isAsked = true := by
  unfold Request.toCommand Request.listing Request.showing Request.setting at h
  simp only [bind, Except.bind, pure, Except.pure] at h
  split at h <;> (repeat' split at h) <;> cases h <;> rfl

theorem readCommand_use {j : Json} {op : Operation} (h : readCommand j = .ok (.use op)) :
    op.isAsked = true := by
  unfold readCommand at h
  simp only [bind, Except.bind] at h
  split at h
  · exact absurd h (by simp)
  · exact toCommand_use h

theorem deliver_use {route : Route} {r : Reply} {op : Operation} {next : Point}
    (h : deliver route r = .use op next) : ∃ text v, op = .send text ∧ next = .sending v := by
  unfold deliver sendJson at h
  split at h <;> cases h
  exact ⟨_, _, rfl, rfl⟩

theorem answer_use {table : BreakpointTable} {route : Route} {j : Json} {op : Operation}
    {next : Point} (h : (answer table route j).2 = .use op next) :
    (∃ text v, op = .send text ∧ next = .sending v) ∨
      op.isAsked = true ∧ next = .answering route j := by
  unfold answer at h
  split at h
  · exact .inl (deliver_use h)
  · rename_i command hc
    split at h
    · cases h
      exact .inr ⟨readCommand_use hc, rfl⟩
    · split at h
      · exact .inl (deliver_use h)
      · exact absurd h (by simp)

theorem step_use {table : BreakpointTable} {p next : Point} {last : Answer} {op : Operation}
    (h : (step table p last).2 = .use op next) :
    (∃ text v, op = .send text ∧ next = .sending v) ∨
      op.isAsked = true ∧ ∃ route j, next = .answering route j ∧
        ((∃ text, p = .called (.message text)) ∨ p = .called (.request j)) := by
  cases p with
  | called call =>
    cases call with
    | reload => exact absurd h (by simp [step, enter])
    | added x name =>
      cases h
      exact .inl ⟨_, _, rfl, rfl⟩
    | removed x name =>
      cases h
      exact .inl ⟨_, _, rfl, rfl⟩
    | breakpoint x name e =>
      simp only [step, enter] at h
      split at h
      · exact absurd h (by simp)
      · cases h
        exact .inl ⟨_, _, rfl, rfl⟩
    | message text =>
      simp only [step, enter] at h
      split at h
      · have hd : deliver .message _ = .use op next := h
        exact .inl (deliver_use hd)
      · exact (answer_use h).imp_right fun ⟨ho, hn⟩ => ⟨ho, _, _, hn, .inl ⟨text, rfl⟩⟩
    | request j => exact (answer_use h).imp_right fun ⟨ho, hn⟩ => ⟨ho, _, _, hn, .inr rfl⟩
  | answering route j => exact .inl (deliver_use h)
  | sending v =>
    simp only [step] at h
    split at h <;> exact absurd h (by simp)

end Protocol

variable {host : Host} {sink : Sink}

/-- The protocol pauses nothing from outside. -/
theorem Protocol.handsOff {σ : Debugger.Schedule} (h : ∀ n t x r, σ n ≠ .call t (.pause x r)) :
    Debugger.HandsOff (Protocol.setup host sink) σ where
  calls := h
  uses s p last x r next hu := by
    rcases Protocol.step_use hu with ⟨text, v, hop, -⟩ | ⟨hop, -⟩
    · cases hop
    · exact absurd hop (by simp [Operation.isAsked])

namespace Action

/-- Whether an action belongs to a hook event that the host raises. -/
def isRaised : Action (Protocol.setup host sink) → Bool
  | .begin (.hook ..) | .begin (.send _) | .lock | .unlock | .enter (.breakpoint ..)
  | .reloaded (.breakpoint ..) | .logic (.called .reload) | .logic (.called (.breakpoint ..))
  | .logic (.sending _) | .reportHandled | .locate .. | .decide .. | .wait _ | .parked _ => true
  | _ => false

/-- Whether an action belongs to an operation that a client asks for. -/
def isAsked : Action (Protocol.setup host sink) → Bool
  | .begin op => op.isAsked
  | .give (.command _) | .resumeOne _ | .inspect .. | .host _ | .showValue | .reportLoaded
  | .enumerate .. | .fetch .. | .describe .. | .describeLocation .. => true
  | _ => false

/-- Whether an action may stand above a call of the protocol. -/
def isInner (a : Action (Protocol.setup host sink)) : Bool := a.isRaised || a.isAsked

/-- Whether an action accesses the host for an operation on a paused stack. -/
def accesses : Action (Protocol.setup host sink) → Bool
  | .host _ | .enumerate .. | .fetch .. => true
  | _ => false

/-- Whether an action stands at the head of an agenda only. -/
def isAtomic : Action (Protocol.setup host sink) → Bool
  | .begin _ | .inspect .. | .enumerate .. | .fetch .. | .describe .. | .describeLocation .. => true
  | _ => false

/-- Whether any action may stand above an action. -/
def isPassive : Action (Protocol.setup host sink) → Bool
  | .host _ | .logic _ => false
  | b => !b.isAtomic

/-- **Above.** Whether an action may stand above another one on an agenda. -/
def above (a b : Action (Protocol.setup host sink)) : Bool :=
  match b with
  | .host _ => a.isRaised
  | .logic _ => a.isInner
  | b => !b.isAtomic

end Action

namespace Debugger

variable {d : Debugger (Protocol.setup host sink)} {a b : Action (Protocol.setup host sink)}
  {todo rest : List (Action (Protocol.setup host sink))}

/-- What the host raises leads to nothing but what it raises. -/
theorem Leads.isRaised (h : d.Leads a todo) (ha : a.isRaised = true) :
    todo.all Action.isRaised = true := by
  cases a with
  | begin op =>
    cases op with
    | hook | send => obtain rfl | rfl := h <;> rfl
    | _ => exact absurd ha (by simp [Action.isRaised])
  | enter call | reloaded call =>
    cases call with
    | breakpoint => obtain rfl | rfl := h <;> rfl
    | _ => exact absurd ha (by simp [Action.isRaised])
  | logic p =>
    obtain rfl | ⟨s, last, op, next, hu, rfl⟩ := h
    · rfl
    · rcases Protocol.step_use hu with ⟨text, v, rfl, rfl⟩ | ⟨-, route, j, -, ⟨text, rfl⟩ | rfl⟩
      · rfl
      · exact absurd ha (by simp [Action.isRaised])
      · exact absurd ha (by simp [Action.isRaised])
  | locate x r =>
    obtain rfl | ⟨c, name, -, rfl⟩ := h <;> rfl
  | lock | unlock | reportHandled =>
    obtain rfl : todo = [] := h
    rfl
  | decide | wait | parked => obtain rfl | rfl := h <;> rfl
  | _ => exact absurd ha (by simp [Action.isRaised])

theorem Leads.isInner (h : d.Leads a todo) (ha : a.isInner = true) :
    todo.all Action.isInner = true := by
  unfold Action.isInner at ha
  rcases Bool.or_eq_true_iff.1 ha with ha | ha
  · have hr := h.isRaised ha
    rw [List.all_eq_true] at hr ⊢
    intro b hb
    unfold Action.isInner
    rw [hr b hb]
    rfl
  cases a with
  | begin op =>
    cases op with
    | contexts =>
      obtain rfl : todo = [.describe d.registered []] := h
      rfl
    | setVariable | reload =>
      obtain rfl : todo = [] := h
      rfl
    | resume | load | evaluate | listVariables | fetchVariable =>
      obtain rfl | ⟨c, -, rfl⟩ := h <;> rfl
    | _ => exact absurd ha (by simp [Action.isAsked, Operation.isAsked])
  | give | resumeOne | showValue | reportLoaded | fetch =>
    obtain rfl : todo = [] := h
    rfl
  | inspect c op =>
    obtain rfl | rfl := h
    · rfl
    · cases op <;> rfl
  | host code => obtain rfl | ⟨code, rfl⟩ | ⟨x, r, next, rfl⟩ := h <;> rfl
  | enumerate => obtain rfl | ⟨slots, rfl⟩ := h <;> rfl
  | describe cs done =>
    cases cs with
    | nil =>
      obtain rfl : todo = [] := h
      rfl
    | cons c cs => obtain rfl | ⟨state, rfl⟩ := h <;> rfl
  | describeLocation =>
    obtain ⟨done, rfl⟩ := h
    rfl
  | _ => exact absurd ha (by simp [Action.isAsked])

theorem above_of_all {x : Action (Protocol.setup host sink)} (h : a.above b = true)
    (hr : a.isRaised = true → x.isRaised = true) (hi : a.isInner = true → x.isInner = true) :
    x.above b = true := by
  unfold Action.above at h ⊢
  split at h
  · exact hr h
  · exact hi h
  · exact h

theorem above_of_isPassive {b : Action (Protocol.setup host sink)} (hb : b.isPassive = true) :
    a.above b = true := by
  unfold Action.isPassive at hb
  unfold Action.above
  cases b with
  | host | logic => cases hb
  | _ => exact hb

theorem pairwise_of_tail (h : todo.tail.all Action.isPassive = true) :
    todo.Pairwise fun a b => a.above b = true := by
  cases todo with
  | nil => exact .nil
  | cons a rest =>
    have hrest : ∀ b ∈ rest, b.isPassive = true := List.all_eq_true.1 h
    refine List.pairwise_cons.2 ⟨fun b hb => above_of_isPassive (hrest b hb), ?_⟩
    exact List.pairwise_of_forall_mem_list fun _ _ b hb => above_of_isPassive (hrest b hb)

theorem Leads.pairwise (h : d.Leads a todo) : todo.Pairwise fun a b => a.above b = true := by
  cases a with
  | begin op =>
    refine pairwise_of_tail ?_
    cases op with
    | attach | contexts | resumeAll | message | request =>
      cases h
      rfl
    | setListening | setVariable | reload | send =>
      obtain rfl : todo = [] := h
      rfl
    | start | detach | hook => obtain rfl | rfl := h <;> rfl
    | run | pause | breakpoint => obtain rfl | ⟨x, rfl⟩ := h <;> rfl
    | resume | load | evaluate | listVariables | fetchVariable =>
      obtain rfl | ⟨c, -, rfl⟩ := h <;> rfl
    | stop => obtain rfl | ⟨c, name, -, rfl⟩ := h <;> rfl
  | logic p =>
    obtain rfl | ⟨s, last, op, next, hu, rfl⟩ := h
    · exact .nil
    · have ho : (Action.begin op : Action (Protocol.setup host sink)).isInner = true := by
        rcases Protocol.step_use hu with ⟨text, v, rfl, -⟩ | ⟨ho, -⟩
        · rfl
        · simp [Action.isInner, Action.isAsked, ho]
      simp [Action.above, ho]
  | host =>
    obtain rfl | ⟨code, rfl⟩ | ⟨x, r, next, rfl⟩ := h
    · exact .nil
    · exact pairwise_of_tail rfl
    · simp [Action.above, Action.isRaised]
  | give | lock | unlock | reportHandled | sendFailure | close | pauseAt | resumeOne | showValue
  | reportLoaded | fetch =>
    obtain rfl : todo = [] := h
    exact .nil
  | enter | reloaded | reportNotice | reportText | decide | wait | parked =>
    obtain rfl | rfl := h <;> exact pairwise_of_tail rfl
  | install | enumerate => obtain rfl | ⟨x, rfl⟩ := h <;> exact pairwise_of_tail rfl
  | uninstall | describeLocation =>
    obtain ⟨r, rfl⟩ := h
    exact pairwise_of_tail rfl
  | locate => obtain rfl | ⟨c, name, -, rfl⟩ := h <;> exact pairwise_of_tail rfl
  | sweep =>
    obtain rfl : todo = [.resumeEach d.registered 0] := h
    exact pairwise_of_tail rfl
  | resumeEach cs k =>
    cases cs with
    | nil =>
      obtain rfl : todo = [.unlock] := h
      exact pairwise_of_tail rfl
    | cons c cs =>
      obtain ⟨k, rfl⟩ := h
      exact pairwise_of_tail rfl
  | inspect c op =>
    obtain rfl | rfl := h
    · exact .nil
    · cases op <;> exact pairwise_of_tail rfl
  | describe cs done =>
    cases cs with
    | nil =>
      obtain rfl : todo = [] := h
      exact .nil
    | cons c cs => obtain rfl | ⟨state, rfl⟩ := h <;> exact pairwise_of_tail rfl

/-- **Order of an agenda.** Every action may stand above all that is below it. -/
theorem Initial.pairwise_above {d : Debugger (Protocol.setup host sink)} {σ : Schedule}
    (hd : d.Initial) (n : Nat) (t : ThreadId) :
    ((d.instant σ n).thread t).agenda.Pairwise fun a b => a.above b = true := by
  refine agenda_invariant (P := fun _ as => as.Pairwise fun a b => a.above b = true) hd
    (fun _ => .nil) (fun _ _ _ _ => by simp) (fun n t a rest e todo ans _ hact hp => ?_) n t
  have hl := act_leads hact
  obtain ⟨ha, hrest⟩ := List.pairwise_cons.1 hp
  rw [List.pairwise_append]
  refine ⟨hl.pairwise, hrest, fun x hx b hb => above_of_all (ha b hb) (fun hr => ?_) fun hi => ?_⟩
  · exact List.all_eq_true.1 (hl.isRaised hr) x hx
  · exact List.all_eq_true.1 (hl.isInner hi) x hx

end Debugger

end ScriptDebug
