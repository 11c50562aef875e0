import ScriptDebug.Proofs.Tracing

/-!
# Debugging is transparent

What a debugger does to a run shows nowhere in what the run does. Wherever the hook is installed,
removed or fails, and however long a thread is paused, a run that comes back has assigned the
globals that its program assigns, in that order, and left its frames as they were (`run_effects`).
So two runs of a program agree, whatever the debuggers are that they run in
(`debugging_transparent`).
-/

namespace ScriptDebug

/-- The globals that a run of a program assigns, one behind the other. -/
def Script.Program.assigned (p : Script.Program) : List Script.Variable :=
  p.course.filterMap Script.Stroke.assigned?

namespace Debugger

variable {logic logic' : Logic} {sink sink' : Sink} {d : Debugger ⟨Script.host, logic, sink⟩}
  {d' : Debugger ⟨Script.host, logic', sink'⟩} {σ σ' : Schedule} {t t' : ThreadId} {h h' : Handle}
  {rest : List (Action ⟨Script.host, logic, sink⟩)}
  {rest' : List (Action ⟨Script.host, logic', sink'⟩)} {k k' r r' : Nat}

/-- **Sheltered.** A run that comes back, with no other run and no file that loads on its way. -/
structure Sheltered (d : Debugger ⟨Script.host, logic, sink⟩) (σ : Schedule)
    (t : ThreadId) (h : Handle) (rest : List (Action ⟨Script.host, logic, sink⟩))
    (k r : Nat) : Prop where
  starts : d.Starts σ t h rest k
  completes : d.Completes σ t (.run h) rest k r
  calm : ∀ n, k < n → n < r → d.Calm σ t n

/-- **What a run does** is what its program says. -/
theorem run_effects (hs : d.Sheltered σ t h rest k r) :
    let m : Script.Machine := (d.instant σ k).host
    let m' : Script.Machine := (d.instant σ r).host
    d.assigned σ t h k r = m.program.assigned ∧
      m'.globals = Script.Machine.assignedTo m.globals m.program.assigned ∧
      m'.frames h = m.frames h := by
  intro m m'
  have hpending : ∀ n, k < n → n < r → ((d.instant σ n).thread t).agenda ≠ rest :=
    fun n hkn hnr hrest =>
      Nat.ne_of_lt hnr (hs.completes.eq_of_agenda hkn (Nat.le_of_lt hnr) hrest)
  have honly : ∀ n, k < n → n < r → (d.instant σ n).OnlyRun (· == h) t := fun n hkn hnr =>
    (hs.calm n hkn hnr).only.mono fun _ _ => rfl
  obtain ⟨done, left, hr⟩ := hs.starts.runs hs.completes.before hpending honly
  obtain ⟨rfl, -, hframes⟩ := hr.returned hs.completes.returned
  exact ⟨hr.assigned, hr.globals hs.calm, hframes⟩

/-- **Debugging is transparent.** Two runs of a program that both come back, in any two debuggers
and any two schedules, assign the same globals in the same order. If they started with the same
globals and the same frames, they leave the same globals and the same frames. -/
theorem debugging_transparent (hs : d.Sheltered σ t h rest k r)
    (hs' : d'.Sheltered σ' t' h' rest' k' r')
    (hprogram : (d.instant σ k).host.program = (d'.instant σ' k').host.program)
    (hglobals : (d.instant σ k).host.globals = (d'.instant σ' k').host.globals)
    (hframes : Script.Machine.frames (d.instant σ k).host h = Script.Machine.frames
      (d'.instant σ' k').host h') :
    d.assigned σ t h k r = d'.assigned σ' t' h' k' r' ∧
      (d.instant σ r).host.globals = (d'.instant σ' r').host.globals ∧
      Script.Machine.frames (d.instant σ r).host h = Script.Machine.frames
        (d'.instant σ' r').host h' := by
  obtain ⟨hassigned, hleft, hback⟩ := run_effects hs
  obtain ⟨hassigned', hleft', hback'⟩ := run_effects hs'
  rw [hassigned, hassigned', hleft, hleft', hback, hback', hprogram, hglobals, hframes]
  exact ⟨rfl, rfl, rfl⟩

end Debugger

/-! ## Two runs -/

namespace Rehearsal

open Debugger (Turn Schedule)

/-- A debugger that is about to run a registered execution, and pauses at line 9;
with a second thread. -/
def pausingDebugger : Debugger ⟨Script.host, logic, sink⟩ where
  registry := [(⟨1⟩, 0)]
  contexts := [{ handle := ⟨1⟩, name := "game" }]
  host := gameMachine
  logic := ({ plan := { lines := [9] } } : LogicState)
  sink := ({} : SinkState)
  threads := [{ agenda := [.begin (.run ⟨1⟩)] }, {}]

/-- The run parks in the second function; another thread detaches it,
and it goes on without its hook. -/
def detaching : Schedule := .ofTurns <|
  .replicate 60 (.step 0) ++ .call 1 (.detach ⟨1⟩) :: .replicate 11 (.step 1)

theorem running_sheltered : runningDebugger.Sheltered alone 0 ⟨1⟩ [] 0 83 where
  starts := ⟨rfl, rfl, by decide⟩
  completes := by
    have hbusy : ∀ n < 83, 0 < ((runningDebugger.instant alone n).thread 0).agenda.length := by
      decide +kernel
    exact Debugger.completes_of_height rfl rfl (by decide) (fun n _ hn => hbusy n hn)
      (by decide +kernel)
  calm n _ hn := by
    have hcalm : ∀ n < 83, runningDebugger.Calm alone 0 n := by decide +kernel
    exact hcalm n hn

theorem pausing_sheltered : pausingDebugger.Sheltered detaching 0 ⟨1⟩ [] 0 84 where
  starts := ⟨rfl, rfl, by decide⟩
  completes := by
    have hbusy : ∀ n < 84, 0 < ((pausingDebugger.instant detaching n).thread 0).agenda.length := by
      decide +kernel
    exact Debugger.completes_of_height rfl rfl (by decide) (fun n _ hn => hbusy n hn)
      (by decide +kernel)
  calm n _ hn := by
    have hcalm : ∀ n < 84, pausingDebugger.Calm detaching 0 n := by decide +kernel
    exact hcalm n hn

/-- A run that is paused and then detached does what one does that nobody stops. -/
theorem detached_run_agrees :
    ((pausingDebugger.instant detaching 60).contextOf ⟨1⟩).any (·.isPaused) = true ∧
      Script.Machine.isHooked (pausingDebugger.instant detaching 84).host ⟨1⟩ = false ∧
      runningDebugger.assigned alone 0 ⟨1⟩ 0 83 = pausingDebugger.assigned detaching 0 ⟨1⟩ 0 84 ∧
      (runningDebugger.instant alone 83).host.globals =
      (pausingDebugger.instant detaching 84).host.globals ∧
      Script.Machine.frames (runningDebugger.instant alone 83).host ⟨1⟩ =
        Script.Machine.frames (pausingDebugger.instant detaching 84).host ⟨1⟩ :=
  ⟨by decide +kernel, by decide +kernel,
    Debugger.debugging_transparent running_sheltered pausing_sheltered rfl rfl rfl⟩

end Rehearsal

end ScriptDebug
