import ScriptDebug.Debugger.Schedule

/-!
# What an action makes of the state

`Yields` lists what one action of a thread may make of the shared state, and `act_yields` says that
there is nothing else. What holds of every action then needs one case for each change, not one for
each action.
-/

namespace ScriptDebug

variable {S : Setup}

/-- **Sets.** What an action of a thread makes of a context. -/
inductive Action.Sets (t : ThreadId) : Action S → ContextId → Context → Context → Prop
  | close (c : ContextId) (x : Context) : Sets t (.close c) c x x.close.1
  | decide {c : ContextId} {ev : Hook.Event} {x y : Context} (h : x.pause ev = .ok y) :
      Sets t (.decide c ev) c x y
  | pauseAt {c : ContextId} {ev : Hook.Event} {x y : Context} (h : x.pause ev = .ok y) :
      Sets t (.pauseAt c ev) c x y
  | wait {c : ContextId} {x y : Context} (h : x.wait t = (y, true)) : Sets t (.wait c) c x y
  | resumeOne (c : ContextId) (x : Context) : Sets t (.resumeOne c) c x x.resume.1
  | resumeEach (c : ContextId) (cs : List ContextId) (n : Nat) (x : Context) :
      Sets t (.resumeEach (c :: cs) n) c x x.resume.1

namespace Debugger

/-- **Yields.** What an action of a thread, whose last answer is given, may make of the state. -/
inductive Yields (d : Debugger S) (t : ThreadId) (last : Answer) : Action S → Debugger S → Prop
  | stay (a : Action S) : d.Yields t last a d
  | lock (hold : Option Hold) : d.Yields t last .lock { d with dispatch := hold }
  | unlock (hold : Option Hold) : d.Yields t last .unlock { d with dispatch := hold }
  | start {h : Handle} (name : String) (hfree : d.lookup h = none) :
      d.Yields t last (.begin (.start h name)) { d with
        contexts := d.contexts ++ [{ handle := h, name }]
        registry := Ascending.put h d.contexts.length d.registry }
  | stop {h : Handle} {c : ContextId} (hc : d.lookup h = some c) :
      d.Yields t last (.begin (.stop h)) { d with registry := Ascending.remove h d.registry }
  | listen (on : Bool) : d.Yields t last (.begin (.setListening on)) { d with listening := on }
  | context {a : Action S} {c : ContextId} {x y : Context} (hx : d.contexts[c]? = some x)
      (hset : a.Sets t c x y) : d.Yields t last a (d.setContext c y)
  | logic (p : S.logic.Point) :
      d.Yields t last (.logic p) { d with logic := (S.logic.step d.logic p last).1 }
  | host (a : Action S) (host : S.host.State) : d.Yields t last a { d with host }
  | send (a : Action S) (text : String) :
      d.Yields t last a { d with sink := (S.sink.send d.sink text).1 }
  | due (a : Action S) : d.Yields t last a { d with reload := true }
  | reload (call : LogicCall) : d.Yields t last (.enter call) { d with reload := false }

variable {d e : Debugger S} {t : ThreadId} {last ans : Answer} {a : Action S}
  {todo : List (Action S)}

theorem act_yields (h : d.act t last a = some (e, todo, ans)) : d.Yields t last a e := by
  cases a with
  | begin op =>
    cases op <;> simp only [act, beginOperation, beginLook] at h <;>
      (repeat' split at h) <;> cases h
    all_goals first
      | exact .stay _ | exact .start _ ‹_› | exact .stop ‹_› | exact .listen _ | exact .due _
      | exact .send _ _
  | lock =>
    simp only [act] at h
    (repeat' split at h) <;> cases h <;> exact .lock _
  | unlock =>
    simp only [act] at h
    split at h <;> cases h <;> exact .unlock _
  | close | decide | pauseAt | wait | resumeOne =>
    simp only [act] at h
    (repeat' split at h) <;> cases h
    all_goals first
      | exact .stay _
      | exact .context ‹_› (.close _ _)
      | exact .context ‹_› (.decide ‹_›)
      | exact .context ‹_› (.pauseAt ‹_›)
      | exact .context ‹_› (.wait ‹_›)
      | exact .context ‹_› (.resumeOne _ _)
  | resumeEach cs n =>
    cases cs <;> simp only [act] at h <;> (repeat' split at h) <;> cases h
    all_goals first | exact .stay _ | exact .context ‹_› (.resumeEach _ _ _ _)
  | describe cs done =>
    cases cs <;> simp only [act] at h <;> (repeat' split at h) <;> cases h <;> exact .stay _
  | _ =>
    simp only [act] at h
    (repeat' split at h) <;> cases h
    all_goals first
      | exact .stay _ | exact .due _ | exact .reload _ | exact .logic _ | exact .host _ _
      | exact .send _ _

end Debugger

end ScriptDebug
