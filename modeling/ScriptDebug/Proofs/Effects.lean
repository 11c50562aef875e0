import ScriptDebug.Proofs.Registry
import ScriptDebug.Proofs.Requests

/-!
# What a request changes

`ChangesOnly` says for every command what of a session it may change. A request that is answered
with a code other than zero changes nothing at all, and any other one nothing but what its command
names (`request_changes_only`). The flag that has the client logic loaded anew is left aside: every
call clears it, and `reload` sets it.

That a breakpoint which is not set leaves no trace needs the table in order, and that the context to
go on is the one that is named needs the registry in order; so this is about sessions as they come
to be.
-/

namespace ScriptDebug

theorem Script.Machine.assignAll_eq (m : Script.Machine) (vs : List Script.Variable) :
    m.assignAll vs = { m with globals := (m.assignAll vs).globals } := by
  unfold assignAll
  induction vs generalizing m with
  | nil => rfl
  | cons v vs ih =>
    rw [List.foldl_cons, ih]
    rfl

theorem Script.Machine.load_eq (m : Script.Machine) (h : Handle) (path : String) :
    (m.load h path).1 = { m with globals := (m.load h path).1.globals } := by
  unfold load
  split
  · rfl
  · split
    · rfl
    · split
      · rfl
      · exact m.assignAll_eq _

/-- A context that is free to run. -/
def Context.released (x : Context) : Context :=
  { x with state := .running, pausedAt := none, waiters := [] }

theorem Context.Consistent.resume_eq {x : Context} (h : x.Consistent) :
    x.resume.1 = x.released := by
  obtain ⟨hevent, -, hwaiters⟩ := h
  obtain ⟨handle, name, state, pausedAt, closed, waiters⟩ := x
  cases state with
  | paused => rfl
  | running =>
    have hnone : pausedAt = none := by simpa using hevent
    have hempty : waiters = [] := by simpa using hwaiters
    subst hnone hempty
    rfl

namespace Debugger

open Protocol (Command Reply readCommand)

variable {sink : Sink} {d e : Debugger (Protocol.setup Script.host sink)} {t : ThreadId}
  {c : ContextId}

/-- The machine of a session. -/
def machine (d : Debugger (Protocol.setup Script.host sink)) : Script.Machine := d.host

/-- **Changes only** what the command names: `e` is `d`, but for the context that goes on, the
globals that a file assigns, or the breakpoints, and whether the client logic is loaded anew. -/
def ChangesOnly (d : Debugger (Protocol.setup Script.host sink)) (command : Command)
    (e : Debugger (Protocol.setup Script.host sink)) : Prop :=
  match command with
  | .use (.resume h) => ∃ c x, d.lookup h = some c ∧ d.contexts[c]? = some x ∧ x.handle = h ∧
      e = { d with contexts := d.contexts.set c x.released, reload := e.reload }
  | .use (.load _ _) => ∃ globals,
      e = { d with
        host := ({ d.machine with globals := globals } : Script.Machine), reload := e.reload }
  | .setBreakpoint _ | .clearBreakpoint _ | .clearAll => ∃ table,
      e = { d with logic := (table : BreakpointTable), reload := e.reload }
  | _ => e = { d with reload := e.reload }

/-- The change that a command makes behind the lock is the one that it leaves. -/
theorem Alters.changesOnly {command : Command} (ho : d.Orderly)
    (h : (d.entered t).Alters command e) :
    d.ChangesOnly command { e with dispatch := d.dispatch } := by
  cases command with
  | use op =>
    cases op with
    | resume h' =>
      obtain ⟨c, hc, rfl⟩ := h
      have hlookup : d.lookup h' = some c := hc
      obtain ⟨x, hx, hhandle, -⟩ := ho.entry h' c (Ascending.mem_of_get? hlookup)
      have hresumed : (d.entered t).resumed c = (d.entered t).setContext c x.released := by
        have hx' : (d.entered t).contexts[c]? = some x := hx
        rw [resumed, hx', ← (ho.consistent x (List.mem_of_getElem? hx)).resume_eq]
      rw [hresumed]
      exact ⟨c, x, hlookup, hx, hhandle, rfl⟩
    | load h' path =>
      obtain rfl := h
      refine ⟨(d.machine.load h' path).1.globals, ?_⟩
      rw [← Script.Machine.load_eq]
      rfl
    | _ =>
      obtain rfl := h
      rfl
  | setBreakpoint b =>
    obtain rfl := h
    exact ⟨_, rfl⟩
  | clearBreakpoint b =>
    obtain rfl := h
    exact ⟨_, rfl⟩
  | clearAll =>
    obtain rfl := h
    exact ⟨_, rfl⟩
  | listBreakpoints =>
    obtain rfl := h
    rfl

/-- **A refused request** leaves no trace, if the table is in order. -/
theorem settled_of_refused (hordered : d.breakpoints.Ordered) (t : ThreadId) {j : Json}
    (hcode : (d.replyTo t j).code ≠ 0) :
    d.settled t j = { d with reload := (d.settled t j).reload } := by
  suffices hsame : ((d.entered t).requested j).1 = d.entered t by
    unfold settled
    rw [hsame]
    rfl
  unfold requested
  cases hread : readCommand j with
  | error refusal => rfl
  | ok command =>
    rcases (d.entered t).commanded_cases command with
      ⟨refusal, -, -, hsame | ⟨b, rfl, hwas, hclear⟩⟩ | ⟨v, hv, -⟩
    · exact hsame
    · rw [BreakpointTable.snd_remove] at hwas
      have htable : (d.entered t).breakpoints.Ordered := hordered
      refine hclear.trans ?_
      rw [htable.remove_of_not_contains hwas]
      rfl
    · exact absurd ((d.code_replyTo t j).2 ⟨command, v, hread, hv⟩) hcode

/-- **What a request changes.** In a session as it has come to be, a thread is given a request while
no other one holds the lock, and is left alone. If the code of the reply is not zero, nothing has
changed; if it is, nothing but what the command names. -/
theorem request_changes_only {d₀ : Debugger (Protocol.setup Script.host sink)} (h₀ : d₀.Initial)
    (hempty : d₀.breakpoints = {}) (σ : Schedule) (n : Nat) (t : ThreadId) (j : Json) :
    let d := d₀.instant σ n
    t < d.threads.length → d.Open t →
      ∃ (r : Reply) (e : Debugger (Protocol.setup Script.host sink)),
        d.Finishes t (.request j) e (.text r.json.text) ∧ r.request = some j ∧
        (r.code ≠ 0 → e = { d with reload := e.reload }) ∧
        (r.code = 0 → ∃ command, readCommand j = .ok command ∧ d.ChangesOnly command e) := by
  intro d ht hopen
  have ho : d.Orderly := h₀.orderly.instant σ n
  have hordered : d.breakpoints.Ordered :=
    ordered_instant (hempty ▸ BreakpointTable.ordered_empty) σ n
  refine ⟨d.replyTo t j, d.settled t j, (works_request hopen j).finishes ht, request_of _ _,
    settled_of_refused hordered t, fun hcode => ?_⟩
  obtain ⟨command, v, hread, hv⟩ := (d.code_replyTo t j).1 hcode
  refine ⟨command, hread, ?_⟩
  rcases (d.entered t).commanded_cases command with ⟨refusal, href, -⟩ | ⟨-, -, halters⟩
  · rw [href] at hv
    cases hv
  · have hrequested : (d.entered t).requested j = (d.entered t).commanded command := by
      rw [requested, hread]
    unfold settled
    rw [hrequested]
    exact halters.changesOnly ho

end Debugger

namespace Rehearsal

open Protocol (Command)

/-- A client asks for the breakpoints. -/
def listRequest : Json := .object [("cmd", .string "breakpoints")]

/-- Asking for the breakpoints changes nothing. -/
theorem list_changes_nothing :
    ∃ e text, attendedSession.Finishes 0 (.request listRequest) e (.text text) ∧
    e = { attendedSession with reload := e.reload } := by
  have hinitial : attendedSession.Initial := ⟨rfl, rfl, rfl, fun t => by cases t <;> rfl⟩
  have hread : Protocol.readCommand listRequest = .ok .listBreakpoints := by rfl
  obtain ⟨r, e, hfin, -, hrefused, hdone⟩ :=
    Debugger.request_changes_only hinitial rfl (fun _ => .step 0) 0 0 listRequest (by decide)
      (Debugger.open_of_free rfl)
  refine ⟨e, r.json.text, hfin, ?_⟩
  by_cases hcode : r.code = 0
  · obtain ⟨command, hcommand, hchanges⟩ := hdone hcode
    obtain rfl := Except.ok.inj (hread.symm.trans hcommand)
    exact hchanges
  · exact hrefused hcode

end Rehearsal

end ScriptDebug
