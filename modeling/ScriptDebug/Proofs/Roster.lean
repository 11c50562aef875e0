import ScriptDebug.Proofs.Asked

/-!
# The roster

What there is of a debugger apart from its client logic and its sink: the registry, the contexts,
the host, and whether hook events are looked at. `Roster.perform` says what the operations of the
registry make of it, and how they answer, as long as no event pauses; neither the client logic nor
the sink is in it. `Performs` is what a debugger does when operations are given to it one after the
other, each at the end of the one before.
-/

namespace ScriptDebug

/-- **Roster.** -/
structure Roster (H : Host) where
  registry : List (Handle × ContextId)
  contexts : List Context
  host : H.State
  listening : Bool

/-- Whether an operation is one of the registry: executions come and go, events are reported, and
the contexts are listed or resumed. -/
def Operation.isRegistry : Operation → Bool
  | .start .. | .stop _ | .attach .. | .detach _ | .hook .. | .resumeAll | .contexts => true
  | _ => false

namespace Roster

variable {H : Host} {r : Roster H} {h : Handle} {op : Operation}

/-- The context number registered for a handle. -/
def lookup (r : Roster H) (h : Handle) : Option ContextId := Ascending.get? h r.registry

/-- **Unpaused.** No context is paused. -/
def Unpaused (r : Roster H) : Prop := ∀ x ∈ r.contexts, x.isPaused = false

/-- A context is registered. -/
def enter (r : Roster H) (h : Handle) (name : String) : Roster H :=
  { r with
    contexts := r.contexts ++ [{ handle := h, name }]
    registry := Ascending.put h r.contexts.length r.registry }

/-- Contexts, with one of them closed. -/
def closing (contexts : List Context) (c : ContextId) : List Context :=
  match contexts[c]? with
  | some x => contexts.set c x.close.1
  | none => contexts

/-- A context is registered no more, and closed. -/
def leave (r : Roster H) (h : Handle) : Roster H :=
  match r.lookup h with
  | none => r
  | some c => { r with registry := Ascending.remove h r.registry, contexts := closing r.contexts c }

/-- The host changes. -/
def withHost (r : Roster H) (host : H.State) : Roster H := { r with host }

/-- How the registered contexts are listed. -/
def infos (r : Roster H) : List ContextInfo :=
  ((r.registry.map (·.2)).filterMap fun c => r.contexts[c]?).map Context.info

/-- **Perform** an operation of the registry: the roster behind it, and the answer. -/
def perform (r : Roster H) : Operation → Roster H × Answer
  | .start h name =>
    match r.lookup h with
    | some _ => (r, .flag false)
    | none => (r.enter h name, .flag true)
  | .stop h => (r.leave h, .flag true)
  | .attach h name =>
    match r.lookup h with
    | some _ => (r, .registered (.error (.alreadyAttached h)))
    | none =>
      match H.installHook r.host h with
      | (host, .ok ()) => ((r.enter h name).withHost host, .registered (.ok ()))
      | (host, .error f) =>
        (((r.enter h name).withHost host).leave h, .registered (.error (.hook f)))
  | .detach h =>
    match r.lookup h with
    | none => (r, .registered (.error (.unknownContext h)))
    | some _ =>
      ((r.withHost (H.removeHook r.host h).1).leave h,
        .registered ((H.removeHook r.host h).2.mapError .hook))
  | .resumeAll => (r, .count 0)
  | .contexts => (r, .contexts r.infos)
  | _ => (r, .none)

/-- Perform operations one after the other: the roster behind them, and the answers. -/
def performAll (r : Roster H) : List Operation → Roster H × List Answer
  | [] => (r, [])
  | op :: ops =>
    (((r.perform op).1.performAll ops).1, (r.perform op).2 :: ((r.perform op).1.performAll ops).2)

theorem Unpaused.enter (hr : r.Unpaused) (h : Handle) (name : String) :
    (r.enter h name).Unpaused := by
  intro x hx
  rcases List.mem_append.1 hx with hx | hx
  · exact hr x hx
  · obtain rfl := List.mem_singleton.1 hx
    rfl

theorem Unpaused.leave (hr : r.Unpaused) (h : Handle) : (r.leave h).Unpaused := by
  unfold Roster.leave
  split
  · exact hr
  · intro x hx
    dsimp only [closing] at hx
    split at hx
    · rcases List.mem_or_eq_of_mem_set hx with hx | rfl
      · exact hr x hx
      · exact Context.isPaused_close _
    · exact hr x hx

theorem Unpaused.withHost (hr : r.Unpaused) (host : H.State) : (r.withHost host).Unpaused := hr

/-- **No operation of the registry pauses anything.** -/
theorem Unpaused.perform (hr : r.Unpaused) (op : Operation) : (r.perform op).1.Unpaused := by
  unfold Roster.perform
  split
  · split
    · exact hr
    · exact hr.enter _ _
  · exact hr.leave _
  · split
    · exact hr
    · split
      · exact (hr.enter _ _).withHost _
      · exact ((hr.enter _ _).withHost _).leave _
  · split
    · exact hr
    · exact (hr.withHost _).leave _
  all_goals exact hr

end Roster

namespace Debugger

variable {S : Setup} {d e f : Debugger S} {t : ThreadId} {op : Operation} {ans : Answer}
  {calls : List (ThreadId × Operation)} {as bs : List Answer}

/-- The roster of a debugger. -/
def roster (d : Debugger S) : Roster S.host := ⟨d.registry, d.contexts, d.host, d.listening⟩

@[simp] theorem lookup_roster (d : Debugger S) (h : Handle) : d.roster.lookup h = d.lookup h := rfl

@[simp] theorem host_roster (d : Debugger S) : d.roster.host = d.host := rfl

theorem length_runThread (d : Debugger S) (t : ThreadId) (n : Nat) :
    (d.runThread t n).threads.length = d.threads.length := by
  induction n generalizing d with
  | zero => rfl
  | succ n ih =>
    unfold runThread
    split
    · rfl
    · rename_i d' hstep
      obtain ⟨a, rest, e, todo, ans, -, hact, rfl, -⟩ := step_cases hstep
      rw [ih]
      show (e.threads.set t _).length = _
      rw [List.length_set, act_threads hact]

theorem Finishes.length (h : d.Finishes t op e ans) : e.threads.length = d.threads.length := by
  obtain ⟨-, n, hn⟩ := h
  have hlength := congrArg (fun d => d.threads.length) (hn n (Nat.le_refl n))
  simpa [length_runThread, call, setThread] using hlength.symm

/-- **Performs.** Operations are given to threads one after the other; each thread is left alone
until it has its answer. -/
inductive Performs : Debugger S → List (ThreadId × Operation) → List Answer → Debugger S → Prop
  | nil (d : Debugger S) : Performs d [] [] d
  | cons {d e f : Debugger S} {t : ThreadId} {op : Operation} {ans : Answer}
      {calls : List (ThreadId × Operation)} {as : List Answer} (hthread : t < d.threads.length)
      (hend : d.Finishes t op e ans) (hrest : Performs (e.setThread t ⟨[], ans⟩) calls as f) :
      Performs d ((t, op) :: calls) (ans :: as) f

/-- **There is one course** of a list of operations. -/
theorem Performs.unique (h : d.Performs calls as e) (h' : d.Performs calls bs f) :
    as = bs ∧ e = f := by
  induction h generalizing bs with
  | nil =>
    cases h'
    exact ⟨rfl, rfl⟩
  | cons hthread hend hrest ih =>
    cases h' with
    | cons _ hend' hrest' =>
      have hlength := hend'.length
      obtain rfl := hend.unique hend' (hlength ▸ hthread)
      rw [← Settles.unique hend hend'] at hrest'
      obtain ⟨rfl, rfl⟩ := ih hrest'
      exact ⟨rfl, rfl⟩

theorem Performs.iff (h : d.Performs calls as e) (bs : List Answer) (f : Debugger S) :
    d.Performs calls bs f ↔ bs = as ∧ f = e := by
  constructor
  · intro h'
    obtain ⟨rfl, rfl⟩ := h.unique h'
    exact ⟨rfl, rfl⟩
  · rintro ⟨rfl, rfl⟩
    exact h

end Debugger

end ScriptDebug
