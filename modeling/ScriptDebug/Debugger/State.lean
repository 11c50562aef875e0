import ScriptDebug.Ascending
import ScriptDebug.Debugger.Logic

/-!
# The state of the debugger

Threads work off agendas of actions, each action one atomic step on shared state: the dispatch lock,
the registry, the contexts, the flags, and the states of the collaborators. A context outlives its
registration, as a thread may still hold it; so contexts are kept apart from the registry and are
known by number.
-/

namespace ScriptDebug

/-- The number of a context, in the order of registration. -/
abbrev ContextId := Nat

/-- **Action.** One atomic step of a thread. -/
inductive Action (S : Setup) where
  /-- Start an operation. -/
  | begin (op : Operation)
  /-- Settle the answer. -/
  | give (a : Answer)
  -- the dispatch lock
  | lock
  | unlock
  -- calls of the client logic
  | enter (call : LogicCall)
  | reloaded (call : LogicCall)
  | logic (p : S.logic.Point)
  | reportNotice
  | reportText
  | reportHandled
  | sendFailure
  -- registration
  | install (h : Handle)
  | uninstall (h : Handle)
  | close (c : ContextId)
  -- hook events
  | locate (h : Handle) (report : Hook.Report)
  | decide (c : ContextId) (e : Hook.Event)
  | pauseAt (c : ContextId) (e : Hook.Event)
  | wait (c : ContextId)
  | parked (c : ContextId)
  -- resuming
  | resumeOne (c : ContextId)
  | sweep
  | resumeEach (cs : List ContextId) (resumed : Nat)
  -- looking into a paused stack
  | inspect (c : ContextId) (op : Operation)
  | host (code : S.host.Code)
  | showValue
  | reportLoaded
  | enumerate (kind : VariableKind) (h : Handle) (frame index : Nat) (slots : List Slot)
  | fetch (kind : VariableKind) (h : Handle) (frame index : Nat) (levels : Int)
  -- listing contexts
  | describe (cs : List ContextId) (done : List ContextInfo)
  | describeLocation (c : ContextId) (state : RunState) (cs : List ContextId)
      (done : List ContextInfo)

/-- **Thread.** What is left to do, and the last answer. -/
structure Thread (S : Setup) where
  agenda : List (Action S) := []
  answer : Answer := .none

/-- **Dispatch lock.** One thread holds it any number of times. -/
structure Hold where
  owner : ThreadId
  /-- How often the owner holds the lock beyond the first time. -/
  again : Nat := 0
  deriving DecidableEq, Repr

/-- **Debugger.** -/
structure Debugger (S : Setup) where
  /-- The registered contexts by handle, in ascending order. -/
  registry : List (Handle × ContextId) := []
  /-- Every context there has been. -/
  contexts : List Context := []
  dispatch : Option Hold := none
  /-- Whether the client logic is loaded anew before its next call. -/
  reload : Bool := true
  /-- Whether hook events are looked at. -/
  listening : Bool := true
  host : S.host.State
  logic : S.logic.State
  sink : S.sink.State
  threads : List (Thread S) := []

namespace Debugger

variable {S : Setup}

/-- The context number registered for a handle. -/
def lookup (d : Debugger S) (h : Handle) : Option ContextId := Ascending.get? h d.registry

/-- The numbers of the registered contexts, in ascending order of their handles. -/
def registered (d : Debugger S) : List ContextId := d.registry.map (·.2)

/-- The context registered for a handle. -/
def contextOf (d : Debugger S) (h : Handle) : Option Context :=
  (d.lookup h).bind fun c => d.contexts[c]?

/-- The registered contexts, in ascending order of their handles. -/
def registeredContexts (d : Debugger S) : List Context :=
  d.registered.filterMap fun c => d.contexts[c]?

/-- Change one context. -/
def setContext (d : Debugger S) (c : ContextId) (x : Context) : Debugger S :=
  { d with contexts := d.contexts.set c x }

/-- A thread; one that never started has nothing to do. -/
def thread (d : Debugger S) (t : ThreadId) : Thread S := (d.threads[t]?).getD {}

/-- Change one thread. -/
def setThread (d : Debugger S) (t : ThreadId) (x : Thread S) : Debugger S :=
  { d with threads := d.threads.set t x }

/-- Add a thread that works off an operation. -/
def spawn (d : Debugger S) (op : Operation) : Debugger S :=
  { d with threads := d.threads ++ [{ agenda := [.begin op] }] }

/-- Give an operation to a thread that has nothing to do. -/
def call (d : Debugger S) (t : ThreadId) (op : Operation) : Debugger S :=
  d.setThread t { agenda := [.begin op] }

/-- Close every registered context, as the debugger goes away. -/
def shutDown (d : Debugger S) : Debugger S :=
  { d with
    registry := []
    contexts := d.registered.foldl
      (fun cs c => match cs[c]? with
        | some x => cs.set c x.close.1
        | none => cs) d.contexts }

end Debugger

end ScriptDebug
