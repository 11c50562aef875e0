import ScriptDebug.Proofs.Alone
import ScriptDebug.Proofs.Table

/-!
# A call of the JSON protocol

What becomes of a call of the client logic whose thread is left alone. It runs behind the lock, the
client logic having been loaded anew if need be, and the lock is given back (`works_dispatch`). A
text that is sent on the way decides how the call ends: it fails if the transport breaks, and not
for want of a client (`works_sendJson`).
-/

namespace ScriptDebug.Debugger

open Protocol (Point sendJson)

variable {host : Host} {sink : Sink} {d e : Debugger (Protocol.setup host sink)} {t : ThreadId}
  {last ans : Answer} {p : Point}

/-- Change the breakpoints of a session. -/
def setBreakpoints (d : Debugger (Protocol.setup host sink)) (table : BreakpointTable) :
    Debugger (Protocol.setup host sink) :=
  { d with logic := table }

/-- Send a text. -/
def told (d : Debugger (Protocol.setup host sink)) (text : String) :
    Debugger (Protocol.setup host sink) :=
  { d with sink := (sink.send d.sink text).1 }

/-- How a call ends behind a text: having no client is no failure,
a transport that breaks is one. -/
def endOf (v : Verdict) : Except SinkFailure Unit → Except LogicFailure Verdict
  | .error (.transport reason) => .error (.sink (.transport reason))
  | _ => .ok v

theorem works_done {table : BreakpointTable} {r : Except LogicFailure Verdict}
    (hstep : Protocol.step d.breakpoints p last = (table, .done r)) :
    Works t d last [.logic p] (d.setBreakpoints table) (.verdict r) := by
  have hlogic : Protocol.logic.step d.logic p last = (table, .done r) := hstep
  refine works_act ?_
  simp only [act, hlogic]
  rfl

theorem works_sendJson {table : BreakpointTable} {j : Json} {v : Verdict}
    (hstep : Protocol.step d.breakpoints p last = (table, sendJson j v)) :
    Works t d last [.logic p] ((d.setBreakpoints table).told j.text)
      (.verdict (endOf v (sink.send d.sink j.text).2)) := by
  have hlogic : Protocol.logic.step d.logic p last = (table, sendJson j v) := hstep
  have hact : d.act t last (.logic p) =
      some (d.setBreakpoints table, [.begin (.send j.text), .logic (.sending v)], .none) := by
    simp only [act, hlogic, sendJson]
    rfl
  have hsend : (d.setBreakpoints table).act t .none (.begin (.send j.text)) =
      some ((d.setBreakpoints table).told j.text, [], .sent (sink.send d.sink j.text).2) := rfl
  refine .of_act hact (.cons hsend ?_)
  generalize (sink.send d.sink j.text).2 = r
  refine works_done ?_
  cases r with
  | ok => rfl
  | error f => cases f <;> rfl

/-! ## Behind the lock -/

/-- The state that a call of the client logic works in. -/
def entered (d : Debugger (Protocol.setup host sink)) (t : ThreadId) :
    Debugger (Protocol.setup host sink) :=
  { d.locked t with reload := false }

theorem works_enter {call : LogicCall} (last : Answer)
    (h : ∀ last, Works t { d with reload := false } last [.logic (.called call), .unlock] e ans) :
    Works t d last [.enter call] e ans := by
  cases hr : d.reload with
  | false =>
    have hsame : { d with reload := false } = d := by rw [← hr]
    have hact : d.act t last (.enter call) = some (d, [.logic (.called call), .unlock], .none) := by
      simp only [act, hr]
      rfl
    rw [hsame] at h
    exact .of_act hact (h .none)
  | true =>
    have hact : d.act t last (.enter call) =
        some ({ d with reload := false }, [.logic (.called .reload), .reloaded call], .none) := by
      simp only [act, hr]
      rfl
    exact .of_act hact (.cons rfl (.of_act rfl (h .none)))

/-- **A call** works behind the lock, and the lock is given back. -/
theorem works_dispatch {call : LogicCall} (hopen : d.Open t) (last : Answer)
    (hcall : ∀ last, Works t (d.entered t) last [.logic (.called call)] e ans)
    (hlock : e.dispatch = (d.locked t).dispatch) :
    Works t d last (Action.dispatch call) { e with dispatch := d.dispatch } ans :=
  (works_lock hopen last).append
    (works_enter last fun last => (hcall last).append (works_unlock hopen hlock ans))

end ScriptDebug.Debugger
