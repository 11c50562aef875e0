import ScriptDebug.Proofs.Turns

/-!
# What an action leads to

`Leads d a todo` says which actions may come in place of an action, whatever the answers are;
`act_leads` that no others do. Beside it stand the parts of the state that an action leaves alone:
only `lock` and `unlock` touch the dispatch lock, only `start` and `stop` the registry, and a
context changes its stance only by the few actions that `alters` names.
-/

namespace ScriptDebug

variable {S : Setup}

/-- **Stance** of a context: its run state, and the event it is paused at. -/
def Context.stance (x : Context) : RunState × Option Hook.Event := (x.state, x.pausedAt)

theorem Context.isPaused_of_stance {x y : Context} (h : y.stance = x.stance)
    (hx : x.isPaused = true) : y.isPaused = true := by
  have hstate : y.state = x.state := congrArg Prod.fst h
  unfold Context.isPaused at hx ⊢
  rw [hstate]
  exact hx

/-- Whether an action may change the stance of a context. -/
def Action.alters : Action S → ContextId → Prop
  | .close c, k | .decide c _, k | .pauseAt c _, k | .resumeOne c, k
  | .resumeEach (c :: _) _, k => c = k
  | _, _ => False

section Sets

variable {t : ThreadId} {a : Action S} {c : ContextId} {x y : Context}

/-- The stance changes by pausing, resuming and closing only, and nothing but closing closes. -/
theorem Action.Sets.keeps (h : a.Sets t c x y) : y.handle = x.handle ∧ y.name = x.name ∧
    (¬ a.alters c → y.stance = x.stance) ∧ (a ≠ .close c → y.closed = x.closed) := by
  cases h with
  | close => exact ⟨rfl, rfl, fun hno => absurd rfl hno, fun hne => absurd rfl hne⟩
  | decide h | pauseAt h =>
    unfold Context.pause at h
    split at h
    · cases h
    · split at h <;> cases h
      exact ⟨rfl, rfl, fun hno => absurd rfl hno, fun _ => rfl⟩
  | wait h =>
    unfold Context.wait at h
    split at h <;> cases h
    exact ⟨rfl, rfl, fun _ => rfl, fun _ => rfl⟩
  | resumeOne | resumeEach =>
    unfold Context.resume
    split <;> exact ⟨rfl, rfl, fun hno => absurd rfl hno, fun _ => rfl⟩

theorem Action.Sets.isPaused (h : a.Sets t c x y) (hp : y.isPaused = true) :
    x.isPaused = true ∨ (∃ ev, a = .decide c ev ∧ x.pause ev = .ok y) ∨
    ∃ ev, a = .pauseAt c ev := by
  cases h with
  | close => cases hp
  | decide h => exact .inr (.inl ⟨_, rfl, h⟩)
  | pauseAt h => exact .inr (.inr ⟨_, rfl⟩)
  | wait h =>
    unfold Context.wait at h
    split at h <;> cases h
    exact .inl hp
  | resumeOne | resumeEach =>
    rw [Context.isPaused_resume] at hp
    cases hp

theorem Action.Sets.consistent (h : a.Sets t c x y) (hx : x.Consistent) : y.Consistent := by
  cases h with
  | close => exact .close x
  | decide h | pauseAt h => exact .pause h
  | wait h =>
    have hwait := hx.wait t
    rwa [h] at hwait
  | resumeOne | resumeEach => exact hx.resume

end Sets

namespace Debugger

/-- What may come in place of an operation. -/
def OperationLeads (d : Debugger S) : Operation → List (Action S) → Prop
  | .start h name, todo =>
    todo = [] ∨ todo = Action.dispatch (.added h name) ++ [.reportNotice, .give (.flag true)]
  | .stop h, todo =>
    todo = [] ∨ ∃ c name, d.lookup h = some c ∧
      todo = Action.dispatch (.removed h name) ++ [.reportNotice, .close c, .give (.flag true)]
  | .attach h name, todo => todo = [.begin (.start h name), .install h]
  | .detach h, todo => todo = [] ∨ todo = [.uninstall h]
  | .hook h report, todo => todo = [] ∨ todo = [.locate h report]
  | .run _, todo => todo = [] ∨ ∃ code, todo = [.host code, .give (.ran (.ok ()))]
  | .pause _ report, todo => todo = [] ∨ ∃ c, todo = [.pauseAt c (.ofReport report)]
  | .resumeAll, todo => todo = [.lock, .sweep]
  | .message text, todo => todo = Action.dispatch (.message text) ++ [.reportNotice]
  | .request j, todo => todo = Action.dispatch (.request j) ++ [.reportText]
  | .breakpoint h report, todo =>
    todo = [] ∨ ∃ name,
      todo = Action.dispatch (.breakpoint h name (.ofReport report)) ++ [.reportHandled]
  | .resume h, todo =>
    todo = [] ∨ ∃ c, d.lookup h = some c ∧
      todo = [.lock, .resumeOne c, .unlock, .give (.command (.ok ()))]
  | .load h path, todo => todo = [] ∨ ∃ c, d.lookup h = some c ∧ todo = [.inspect c (.load h path)]
  | .evaluate h e, todo =>
    todo = [] ∨ ∃ c, d.lookup h = some c ∧ todo = [.inspect c (.evaluate h e)]
  | .listVariables kind h frame, todo =>
    todo = [] ∨ ∃ c, d.lookup h = some c ∧ todo = [.inspect c (.listVariables kind h frame)]
  | .fetchVariable kind h frame index levels, todo =>
    todo = [] ∨ ∃ c, d.lookup h = some c ∧
      todo = [.inspect c (.fetchVariable kind h frame index levels)]
  | .contexts, todo => todo = [.describe d.registered []]
  | .setListening _, todo | .setVariable .., todo | .reload, todo | .send _, todo => todo = []

/-- **What may come in place of an action.** -/
def Leads (d : Debugger S) : Action S → List (Action S) → Prop
  | .begin op, todo => d.OperationLeads op todo
  | .enter call, todo =>
    todo = [.logic (S.logic.enter .reload), .reloaded call] ∨
      todo = [.logic (S.logic.enter call), .unlock]
  | .reloaded call, todo => todo = [.unlock] ∨ todo = [.logic (S.logic.enter call), .unlock]
  | .logic p, todo =>
    todo = [] ∨ ∃ s last op next,
      (S.logic.step s p last).2 = .use op next ∧ todo = [.begin op, .logic next]
  | .reportNotice, todo => todo = [] ∨ todo = [.sendFailure]
  | .reportText, todo => todo = [] ∨ todo = [.sendFailure, .give (.text "null")]
  | .install h, todo =>
    todo = [] ∨ ∃ f, todo = [.begin (.stop h), .give (.registered (.error (.hook f)))]
  | .uninstall h, todo => ∃ r, todo = [.begin (.stop h), .give (.registered r)]
  | .locate h report, todo =>
    todo = [] ∨ ∃ c name, d.lookup h = some c ∧ todo = .lock ::
      Action.dispatch (.breakpoint h name (.ofReport report)) ++
        [.reportHandled, .decide c (.ofReport report)]
  | .decide c _, todo => todo = [.unlock, .wait c] ∨ todo = [.unlock]
  | .wait c, todo => todo = [] ∨ todo = [.parked c]
  | .parked c, todo => todo = [] ∨ todo = [.wait c]
  | .sweep, todo => todo = [.resumeEach d.registered 0]
  | .resumeEach [] _, todo => todo = [.unlock]
  | .resumeEach (_ :: cs) _, todo => ∃ n, todo = [.resumeEach cs n]
  | .inspect _ op, todo => todo = [] ∨ todo = op.look
  | .host _, todo =>
    todo = [] ∨ (∃ code, todo = [.host code]) ∨
      ∃ h report next, todo = [.begin (.hook h report), .host next]
  | .enumerate kind h frame index _, todo =>
    todo = [] ∨ ∃ slots, todo = [.enumerate kind h frame (index + 1) slots]
  | .describe [] _, todo => todo = []
  | .describe (c :: cs) done, todo =>
    todo = [.describe cs done] ∨ ∃ state, todo = [.describeLocation c state cs done]
  | .describeLocation _ _ cs _, todo => ∃ done, todo = [.describe cs done]
  | .give _, todo | .lock, todo | .unlock, todo | .reportHandled, todo | .sendFailure, todo
  | .close _, todo | .pauseAt .., todo | .resumeOne _, todo | .showValue, todo
  | .reportLoaded, todo | .fetch .., todo => todo = []

section Act

variable {d e : Debugger S} {t : ThreadId} {last ans : Answer} {a : Action S}
  {todo : List (Action S)}

theorem act_leads (h : d.act t last a = some (e, todo, ans)) : d.Leads a todo := by
  cases a with
  | begin op =>
    cases op <;> simp only [act, beginOperation, beginLook] at h <;> grind [Leads, OperationLeads]
  | resumeEach cs n => cases cs <;> simp only [act] at h <;> grind [Leads]
  | describe cs done => cases cs <;> simp only [act] at h <;> grind [Leads]
  | _ => simp only [act] at h; grind [Leads]

/-- Where an operation on an agenda comes from. -/
theorem Leads.begin {op : Operation} (h : d.Leads a todo) (hmem : .begin op ∈ todo) :
    (∃ x name, a = .begin (.attach x name) ∧ op = .start x name) ∨
      (∃ x, (a = .install x ∨ a = .uninstall x) ∧ op = .stop x) ∨
      (∃ code x report, a = .host code ∧ op = .hook x report) ∨
      ∃ p s last next, a = .logic p ∧ (S.logic.step s p last).2 = .use op next := by
  cases a with
  | begin o =>
    cases o with
    | attach x name =>
      obtain rfl : todo = [.begin (.start x name), .install x] := h
      exact .inl ⟨x, name, rfl, by simpa using hmem⟩
    | _ => exfalso; grind [Leads, OperationLeads, Action.dispatch]
  | install x =>
    obtain rfl | ⟨f, rfl⟩ := h
    · exact absurd hmem List.not_mem_nil
    · exact .inr (.inl ⟨x, .inl rfl, by simpa using hmem⟩)
  | uninstall x =>
    obtain ⟨r, rfl⟩ := h
    exact .inr (.inl ⟨x, .inr rfl, by simpa using hmem⟩)
  | host code =>
    obtain rfl | ⟨code', rfl⟩ | ⟨x, report, next, rfl⟩ := h
    · exact absurd hmem List.not_mem_nil
    · simp at hmem
    · exact .inr (.inr (.inl ⟨code, x, report, rfl, by simpa using hmem⟩))
  | logic p =>
    obtain rfl | ⟨s, last, op', next, hu, rfl⟩ := h
    · exact absurd hmem List.not_mem_nil
    · obtain rfl : op = op' := by simpa using hmem
      exact .inr (.inr (.inr ⟨p, s, last, next, rfl, hu⟩))
  | resumeEach cs n => cases cs <;> exfalso <;> grind [Leads]
  | describe cs done => cases cs <;> exfalso <;> grind [Leads]
  | inspect k op => cases op <;> exfalso <;> grind [Leads, Operation.look]
  | _ => exfalso; grind [Leads, Action.dispatch]

/-! ## The dispatch lock -/

theorem act_dispatch (h : d.act t last a = some (e, todo, ans)) (hl : a ≠ .lock)
    (hu : a ≠ .unlock) : e.dispatch = d.dispatch := by
  cases act_yields h with
  | lock => exact absurd rfl hl
  | unlock => exact absurd rfl hu
  | _ => rfl

/-! ## The registry -/

theorem act_registry (h : d.act t last a = some (e, todo, ans)) :
    e.registry = d.registry ∨
      (∃ x name, a = .begin (.start x name) ∧ d.lookup x = none ∧
        e.registry = Ascending.put x d.contexts.length d.registry ∧
        e.contexts = d.contexts ++ [{ handle := x, name }]) ∨
      ∃ x c, a = .begin (.stop x) ∧ d.lookup x = some c ∧
        e.registry = Ascending.remove x d.registry ∧ e.contexts = d.contexts := by
  cases act_yields h with
  | start name hfree => exact .inr (.inl ⟨_, name, rfl, hfree, rfl, rfl⟩)
  | stop hc => exact .inr (.inr ⟨_, _, rfl, hc, rfl, rfl⟩)
  | _ => exact .inl rfl

/-! ## Contexts -/

/-- A context is never lost; it stays as it is, or the action sets it. -/
theorem act_sets (h : d.act t last a = some (e, todo, ans)) {c : ContextId} {x : Context}
    (hx : d.contexts[c]? = some x) : ∃ y, e.contexts[c]? = some y ∧ (y = x ∨ a.Sets t c x y) := by
  cases act_yields h with
  | start name hfree =>
    exact ⟨x, (List.getElem?_append_left (List.getElem?_eq_some_iff.1 hx).1).trans hx, .inl rfl⟩
  | @context _ k y z hk hset =>
    rw [getElem?_setContext]
    by_cases hkc : k = c
    · subst hkc
      obtain rfl : y = x := Option.some.inj (hk.symm.trans hx)
      rw [if_pos rfl, hx]
      exact ⟨z, rfl, .inr hset⟩
    · rw [if_neg hkc]
      exact ⟨x, hx, .inl rfl⟩
  | _ => exact ⟨x, hx, .inl rfl⟩

theorem act_context (h : d.act t last a = some (e, todo, ans)) {c : ContextId} {x : Context}
    (hx : d.contexts[c]? = some x) :
    ∃ y, e.contexts[c]? = some y ∧ y.handle = x.handle ∧ y.name = x.name ∧
      (¬ a.alters c → y.stance = x.stance) ∧ (a ≠ .close c → y.closed = x.closed) := by
  obtain ⟨y, hy, rfl | hset⟩ := act_sets h hx
  · exact ⟨y, hy, rfl, rfl, fun _ => rfl, fun _ => rfl⟩
  · exact ⟨y, hy, hset.keeps⟩

theorem act_consistent (h : d.act t last a = some (e, todo, ans))
    (hd : ∀ x ∈ d.contexts, x.Consistent) : ∀ x ∈ e.contexts, x.Consistent := by
  intro x hx
  cases act_yields h with
  | start name hfree =>
    rcases List.mem_append.1 hx with hx | hx
    · exact hd x hx
    · obtain rfl := List.mem_singleton.1 hx
      exact Context.consistent_new _ name
  | context hk hset =>
    rcases List.mem_or_eq_of_mem_set hx with hx | rfl
    · exact hd x hx
    · exact hset.consistent (hd _ (List.mem_of_getElem? hk))
  | _ => exact hd x hx

end Act

end Debugger

end ScriptDebug
