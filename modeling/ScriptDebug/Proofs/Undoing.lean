import ScriptDebug.Proofs.Launching
import ScriptDebug.Proofs.Tracing

/-!
# What is left of the demo threads

1. Once the workers are told to stop, at most one more run of the script begins on the thread of
   each (`Manned.runsBegun_le`): the one that is about to begin, if there is one.
2. A start that fails leaves nothing behind (`Undone`), and neither does a shutdown (`Gone`); a
   worker that is waited for is not parked (`started_or_undone`).
-/

namespace ScriptDebug

namespace Demo

open Debugger (Changed Crew)

variable {logic : Logic} {sink : Sink} {F : Handle → Prop} {d₀ g : Debugger (setup logic sink)}
  {d : Demo logic sink} {ws left : List Worker} {w v : Worker} {count : Nat} {t : ThreadId}
  {turns : List Turn}

/-! ## One more run -/

/-- Whether a run of the script is about to begin on a thread. -/
def isAboutToRun (d : Demo logic sink) (t : ThreadId) : Bool :=
  match (d.debugger.thread t).agenda with
  | .begin (.run _) :: _ => true
  | _ => false

/-- Whether a run of the script begins on a thread at a turn. -/
def begins (d : Demo logic sink) (t : ThreadId) : Turn → Bool
  | .own (.turn u) => u == t && d.isAboutToRun t
  | _ => false

/-- How many runs of the script begin on a thread. -/
def runsBegun (d : Demo logic sink) (t : ThreadId) : List Turn → Nat
  | [] => 0
  | turn :: turns => (d.begins t turn).toNat + (d.take turn).runsBegun t turns

/-- **Winds down.** No worker goes on, and one thread is that of a worker and has the
same to do as before. -/
structure WindsDown (d : Demo logic sink) (t : ThreadId) (d' : Demo logic sink) : Prop where
  off : d'.keepOn = false
  worker : t ∈ threads d'.workers
  thread : d'.debugger.thread t = d.debugger.thread t

theorem WindsDown.isAboutToRun {d' : Demo logic sink} (h : d.WindsDown t d') :
    d'.isAboutToRun t = d.isAboutToRun t := by
  unfold Demo.isAboutToRun
  rw [h.thread]

theorem windsDown_control (hoff : d.keepOn = false) (ht : t ∈ threads d.workers)
    (hne : t ≠ d.commands) (fault : Option String) : d.WindsDown t (d.control fault) := by
  obtain ⟨g, commands, keepOn, ws, stage⟩ := d
  have hsame : ∀ {stage'}, WindsDown ⟨g, commands, keepOn, ws, stage⟩ t ⟨g, commands, false,
      ws, stage'⟩ :=
    ⟨rfl, ht, rfl⟩
  have hcall : ∀ {op : Operation} {stage'},
      WindsDown ⟨g, commands, keepOn, ws, stage⟩ t ⟨g.call commands op, commands, false,
        ws, stage'⟩ :=
    ⟨rfl, ht, Debugger.thread_call_ne hne _⟩
  obtain rfl : keepOn = false := hoff
  cases stage with
  | start i n =>
    simp only [Demo.control]
    split
    · exact hsame
    · exact ⟨rfl, ht, Debugger.thread_call_ne hne _⟩
  | attach i n h =>
    simp only [Demo.control]
    split
    · exact hsame
    · split <;> exact hsame
  | spawn i n h =>
    cases fault with
    | none =>
      refine ⟨rfl, ?_, Debugger.thread_append g t⟩
      exact List.mem_map.2 ((List.mem_map.1 ht).imp fun w hw => ⟨List.mem_append_left _ hw.1, hw.2⟩)
    | some reason => exact hcall
  | undo f | detach w left f | join w left f =>
    simp only [Demo.control]
    split <;> exact hsame
  | stop left f =>
    cases left with
    | nil => exact hsame
    | cons w left => exact hcall
  | running | «over» f => exact hsame

theorem windsDown_work (hoff : d.keepOn = false) (ht : t ∈ threads d.workers) (i : Nat) :
    d.WindsDown t (d.work i) := by
  have hgoTo : ∀ work, d.WindsDown t (d.goTo i work) := fun work => by
    refine ⟨hoff, ?_, rfl⟩
    rw [goTo, threads_modify]
    exact ht
  unfold Demo.work
  rw [hoff]
  split
  · exact ⟨hoff, ht, rfl⟩
  · split
    · exact hgoTo .over
    · split
      · exact ⟨hoff, ht, rfl⟩
      · split <;> exact hgoTo _
    · exact ⟨hoff, ht, rfl⟩

/-- Once the workers are told to stop, a thread of theirs gets nothing to do
by the turns of others. -/
theorem Manned.windsDown (hm : Manned F d₀ count d) (hoff : d.keepOn = false)
    (ht : t ∈ threads d.workers) {turn : Turn} (hturn : turn ≠ .own (.turn t)) :
    d.WindsDown t (d.take turn) := by
  have hworker : 0 < t ∧ t < d.debugger.threads.length := by
    obtain ⟨w, hw, rfl⟩ := List.mem_map.1 ht
    exact ⟨(hm.crew.steered w hw).pos, (hm.crew.steered w hw).lt⟩
  cases turn with
  | own e =>
    cases e with
    | control fault =>
      exact windsDown_control hoff ht (by rw [hm.commands]; exact Nat.ne_of_gt hworker.1) fault
    | work i => exact windsDown_work hoff ht i
    | shutDown =>
      obtain ⟨g, commands, keepOn, ws, stage⟩ := d
      cases stage with
      | running => exact ⟨rfl, ht, rfl⟩
      | _ => exact ⟨hoff, ht, rfl⟩
    | turn u =>
      refine ⟨hoff, ht, ?_⟩
      show ((d.debugger.step u).getD d.debugger).thread t = _
      cases hstep : d.debugger.step u with
      | none => rfl
      | some g =>
        obtain ⟨a, rest, e, todo, ans, -, -, -, -, hne⟩ := Debugger.step_cases hstep
        exact hne t fun htu => hturn (by rw [htu])
    | wake u c =>
      refine ⟨hoff, ht, ?_⟩
      show (d.debugger.wakeEarly u c).thread t = _
      unfold Debugger.wakeEarly
      split <;> rfl
  | call u op =>
    simp only [Demo.take]
    split
    · rename_i hothers
      have hne : t ≠ u := by
        rintro rfl
        simp [isOthers, ht] at hothers
      simp only [Debugger.take]
      split
      · exact ⟨hoff, ht, Debugger.thread_call_ne hne op⟩
      · exact ⟨hoff, ht, rfl⟩
    · exact ⟨hoff, ht, rfl⟩
  | spawn op =>
    exact ⟨hoff, ht, (d.debugger.thread_spawn op t).resolve_right fun h =>
      Nat.ne_of_lt hworker.2 h.1⟩

theorem Manned.isAboutToRun_turn (hready : Ready F d₀ count) (hm : Manned F d₀ count d)
    (ht : t ∈ threads d.workers) :
    (d.isAboutToRun t).toNat + ((d.step (.turn t)).isAboutToRun t).toNat ≤
      (d.isAboutToRun t).toNat := by
  obtain ⟨w, hw, rfl⟩ := List.mem_map.1 ht
  show _ + (Demo.isAboutToRun
      { d with debugger := (d.debugger.step w.thread).getD d.debugger } _).toNat ≤ _
  cases hstep : d.debugger.step w.thread with
  | none =>
    have hno : d.isAboutToRun w.thread = false := by
      unfold Demo.isAboutToRun
      split
      · rename_i hag
        simp [Debugger.step, hag, Debugger.act] at hstep
      · rfl
    rw [hno]
    exact Nat.le_of_eq (congrArg (0 + Bool.toNat ·) hno)
  | some g =>
    obtain ⟨regs, hooks, hch⟩ := hm.stage.changed
    obtain ⟨-, hminds⟩ := (hm.crew.steered w hw).step hready.logic hch hstep
    have hno : Demo.isAboutToRun { d with debugger := g } w.thread = false := by
      unfold Demo.isAboutToRun
      split
      · rename_i hag
        exact absurd (hminds _ (by rw [hag]; exact List.mem_cons_self)) id
      · rfl
    exact Nat.le_of_eq (congrArg (Bool.toNat _ + Bool.toNat ·) hno)

/-- **One more run** at most begins on the thread of a worker, once the workers are told to stop. -/
theorem Manned.runsBegun_le (hready : Ready F d₀ count) (hm : Manned F d₀ count d)
    (hoff : d.keepOn = false) (ht : t ∈ threads d.workers)
    (hturns : ∀ turn ∈ turns, turn.Abides F) :
    d.runsBegun t turns ≤ (d.isAboutToRun t).toNat := by
  -- on the turns: that of the thread uses up the run that is about to begin, and no other turn
  -- brings up a new one
  induction turns generalizing d with
  | nil => exact Nat.zero_le _
  | cons turn turns ih =>
    have hm' := hm.take hready (hturns turn List.mem_cons_self)
    have hrest : ∀ turn ∈ turns, turn.Abides F :=
      fun u hu => hturns u (List.mem_cons_of_mem turn hu)
    by_cases hturn : turn = .own (.turn t)
    · subst hturn
      calc (d.begins t (.own (.turn t))).toNat + (d.step (.turn t)).runsBegun t turns
          ≤ (d.isAboutToRun t).toNat + ((d.step (.turn t)).isAboutToRun t).toNat := by
            refine Nat.add_le_add (Nat.le_of_eq ?_) (ih hm' hoff ht hrest)
            simp [Demo.begins]
        _ ≤ (d.isAboutToRun t).toNat := hm.isAboutToRun_turn hready ht
    · have hdown := hm.windsDown hoff ht hturn
      have hno : d.begins t turn = false := by
        unfold Demo.begins
        split
        · rename_i u
          rw [beq_false_of_ne (fun hut => hturn (by rw [hut])), Bool.false_and]
        · rfl
      calc (d.begins t turn).toNat + (d.take turn).runsBegun t turns
          ≤ 0 + ((d.take turn).isAboutToRun t).toNat := by
            rw [hno]
            exact Nat.add_le_add_left (ih hm' hdown.off hdown.worker hrest) _
        _ = (d.isAboutToRun t).toNat := by rw [Nat.zero_add, hdown.isAboutToRun]

/-! ## What is left behind -/

/-- A worker has ended: it looks no more, and its thread has nothing to do. -/
def Ended (d : Demo logic sink) (w : Worker) : Prop :=
  w.work = .over ∧ (d.debugger.thread w.thread).agenda = []

/-- **Launched.** A worker has an execution that is registered since, and hooked. -/
structure Launched (d₀ : Debugger (setup logic sink)) (d : Demo logic sink)
    (w : Worker) : Prop where
  registered : ∃ c, d.debugger.lookup w.handle = some c ∧
    d.debugger.Since d₀.contexts.length w.handle c
  hooked : Script.Machine.isHooked d.debugger.host w.handle = true

/-- **Undone.** Of the executions that others keep off, the same are registered, with the same
contexts, and the same are hooked as at first, and no worker is running. -/
structure Undone (F : Handle → Prop) (d₀ : Debugger (setup logic sink))
    (d : Demo logic sink) : Prop where
  lookup : ∀ h, ¬ F h → d.debugger.lookup h = d₀.lookup h
  isHooked : ∀ h, ¬ F h →
    Script.Machine.isHooked d.debugger.host h = Script.Machine.isHooked d₀.host h
  /-- If others keep off all of them, the registry is the very same. -/
  registry : (∀ h, ¬ F h) → d.debugger.registry = d₀.registry
  ended : ∀ w ∈ d.workers, d.Ended w

/-- **Gone.** The execution of a worker is not registered and has no hook, all contexts that it has
got are closed, and the worker has ended. -/
structure Gone (d₀ : Debugger (setup logic sink)) (d : Demo logic sink) (w : Worker) : Prop where
  unregistered : d.debugger.lookup w.handle = none
  unhooked : Script.Machine.isHooked d.debugger.host w.handle = false
  context : ∃ c, d.debugger.Since d₀.contexts.length w.handle c
  closed : ∀ c x, d₀.contexts.length ≤ c → d.debugger.contexts[c]? = some x → x.handle = w.handle →
    x.closed = true
  ended : d.Ended w

/-- While the command thread rests, the contexts of an execution that is not
registered any more are closed. -/
theorem closed_of_rests {hs : List Handle} (hcrew : Crew F d₀ g ws)
    (hrests : Rests F d₀ g hs) (hv : v ∈ ws) (hh : v.handle ∉ hs) {c : ContextId} {x : Context}
    (hc : d₀.contexts.length ≤ c) (hx : g.contexts[c]? = some x) (hxv : x.handle = v.handle) :
    x.closed = true := by
  have hsteered := hcrew.steered v hv
  have hF : ¬ F x.handle := by rw [hxv]; exact hsteered.free
  rcases hcrew.tidy c x hc hx hF with hclosed | hl | hmem
  · exact hclosed
  · rw [hxv, hrests.2.lookup_eq_none hsteered.free hsteered.untouched hh] at hl
    cases hl
  · rw [hrests.1] at hmem
    cases hmem

/-- **A worker that is waited for** is not parked. -/
theorem Manned.not_parked {f : Option Failure} (hm : Manned F d₀ count d)
    (hstage : d.stage = .join w left f) :
    d.debugger.isParked w.thread = false ∧ d.keepOn = false ∧ w.thread ∈ threads d.workers := by
  have hat := hm.stage
  rw [hstage] at hat
  obtain ⟨hw, hrests⟩ := hat
  obtain ⟨v, hv, hbadge⟩ := List.mem_map.1 (hw.suffix.subset List.mem_cons_self)
  have hhandle : v.handle = w.handle := congrArg Prod.fst hbadge
  have hthread : v.thread = w.thread := congrArg Prod.snd hbadge
  have hgone : v.handle ∉ handles left := by
    rw [hhandle]
    exact hw.not_mem hm.crew.handles
  refine ⟨?_, hw.off, List.mem_map.2 ⟨v, hv, hthread⟩⟩
  rw [← hthread]
  exact (hm.crew.steered v hv).not_parked hm.crew.consistent fun c x =>
    closed_of_rests hm.crew hrests hv hgone

theorem Manned.ended (hm : Manned F d₀ count d) (hw : Winding d.workers d.keepOn [])
    (hv : v ∈ d.workers) :
    d.Ended v := by
  have hover : v.work = .over := (hw.ended v hv).resolve_right List.not_mem_nil
  have hag := (hm.crew.steered v hv).agenda
  unfold Debugger.Agenda at hag
  rw [hover] at hag
  exact ⟨hover, hag⟩

/-- **A start that fails is undone.** -/
theorem Manned.undone (hready : Ready F d₀ count) (hm : Manned F d₀ count d) {f : Option Failure}
    (hstage : d.stage = .over f) : d.Undone F d₀ := by
  have hat := hm.stage
  rw [hstage] at hat
  obtain ⟨hw, -, hch⟩ := hat
  have hlookup : ∀ h, ¬ F h → d.debugger.lookup h = d₀.lookup h :=
    fun h hF => hch.others h hF List.not_mem_nil
  refine ⟨hlookup, fun h hF => ?_, fun hnone => ?_, fun v hv => hm.ended hw hv⟩
  · rw [Bool.eq_iff_iff]
    exact (hch.hooked h hF).trans (or_iff_left List.not_mem_nil)
  · exact Ascending.eq_of_get? (fun a => UInt64.lt_irrefl a.raw) Handle.lt_trans hm.crew.ascends
      hready.ascends fun h => hlookup h (hnone h)

/-- **A shutdown leaves no worker behind.** -/
theorem Manned.gone (hm : Manned F d₀ count d) {f : Option Failure} (hstage : d.stage = .over f)
    (hv : v ∈ d.workers) : d.Gone d₀ v := by
  have hat := hm.stage
  rw [hstage] at hat
  obtain ⟨hw, hrests⟩ := hat
  have hsteered := hm.crew.steered v hv
  exact ⟨hrests.2.lookup_eq_none hsteered.free hsteered.untouched List.not_mem_nil,
    hrests.2.isHooked_eq_false hsteered.free hsteered.untouched List.not_mem_nil, hsteered.context,
    fun c x => closed_of_rests hm.crew hrests hv List.not_mem_nil, hm.ended hw hv⟩

/-- **All or nothing.** The demo threads are started, and stopped, and run in between, in any order
of turns with those of others. If the start succeeds, all workers are there, with executions that
are registered and hooked. If it fails, whichever worker it is that is not attached or gets no
thread, it is undone. A worker that is waited for is not parked, and begins at most one more run.
When the shutdown is over, every worker is gone. -/
theorem started_or_undone (hready : Ready F d₀ count) (hturns : ∀ turn ∈ turns, turn.Abides F) :
    let d := (begin d₀ count).takeAll turns
    (d.stage = .running → d.workers.length = count ∧ ∀ w ∈ d.workers, d.Launched d₀ w) ∧
      (∀ f, d.stage = .over (some f) → d.Undone F d₀) ∧
      (∀ w left f, d.stage = .join w left f → d.debugger.isParked w.thread = false ∧
        ∀ more, (∀ turn ∈ more, turn.Abides F) → d.runsBegun w.thread more ≤ 1) ∧
      ∀ f, d.stage = .over f → ∀ w ∈ d.workers, d.Gone d₀ w := by
  intro d
  have hm : Manned F d₀ count d := (Manned.begin hready).takeAll hready hturns
  refine ⟨fun hstage => ?_, fun f hstage => hm.undone hready hstage, fun w left f hstage => ?_,
    fun f hstage w hw => hm.gone hstage hw⟩
  · have hat := hm.stage
    rw [hstage] at hat
    obtain ⟨hlength, -, hch⟩ := hat
    refine ⟨hlength, fun w hw => ⟨hch.registered _ (List.mem_map_of_mem hw), ?_⟩⟩
    exact (hch.hooked _ (hm.crew.steered w hw).free).2 (.inr (List.mem_map_of_mem hw))
  · obtain ⟨hparked, hoff, hworker⟩ := hm.not_parked hstage
    exact ⟨hparked, fun more hmore => (hm.runsBegun_le hready hoff hworker hmore).trans
      (Bool.toNat_le _)⟩

end Demo

/-! ## A start that fails -/

namespace Rehearsal

open Demo (Turn)

/-- Client logic that pauses at every event. -/
def halting : Logic where
  State := Unit
  Point := Bool
  enter
    | .breakpoint .. => false
    | _ => true
  step _ handled _ := ((), .done (.ok { handled }))

/-- A debugger where somebody has registered the execution that the second worker would get. -/
def takenDebugger : Debugger (Demo.setup halting sink) where
  registry := [(⟨0x1010⟩, 0)]
  contexts := [{ handle := ⟨0x1010⟩, name := "taken" }]
  host := gameMachine
  logic := ()
  sink := ({} : SinkState)
  threads := [{}, {}]

theorem takenDebugger_ready : Demo.Ready (· = ⟨1⟩) takenDebugger 3 where
  logic s p last op next hu := by cases hu
  started := by decide
  idle := rfl
  abides
    | 0, _, ha | 1, _, ha | _ + 2, _, ha => absurd ha List.not_mem_nil
  new := by decide
  unhooked := by decide
  consistent x hx := by
    obtain rfl := List.mem_singleton.1 hx
    exact Context.consistent_new ..
  ascends := List.pairwise_singleton ..

/-- The first worker is started, and parks in its first run;
somebody registers another execution. -/
def firstWorker : List Turn :=
  .own (.control none) :: .replicate 11 (.own (.turn 0)) ++ .replicate 2 (.own (.control none)) ++
    .own (.work 0) :: .replicate 33 (.own (.turn 2)) ++
    .call 1 (.start ⟨1⟩ "game") :: .replicate 9 (.own (.turn 1))

/-- The second worker cannot be attached, and the first one is detached. -/
def secondWorker : List Turn :=
  .own (.control none) :: .replicate 3 (.own (.turn 0)) ++ .replicate 2 (.own (.control none)) ++
    .replicate 12 (.own (.turn 0)) ++ [.own (.control none)]

/-- The first worker comes to the end of its run, looks no more, and has been waited for. -/
def lastRun : List Turn :=
  .replicate 17 (.own (.turn 2)) ++ .replicate 2 (.own (.work 0)) ++
    .replicate 2 (.own (.control none))

theorem lastRun_abides :
    ∀ turn ∈ firstWorker ++ secondWorker ++ lastRun, turn.Abides (· = ⟨1⟩) := by
  intro turn hturn
  cases turn with
  | own e => trivial
  | call t op =>
    obtain ⟨rfl, rfl⟩ : t = 1 ∧ op = .start ⟨1⟩ "game" := by
      simpa [firstWorker, secondWorker, lastRun] using hturn
    rfl
  | spawn op => simp [firstWorker, secondWorker, lastRun] at hturn

/-- The thread of the worker that is waited for. -/
def awaited? : Demo.Stage → Option ThreadId
  | .join w .. => some w.thread
  | _ => none

theorem eq_join {s : Demo.Stage} {t : ThreadId} (h : awaited? s = some t) :
    ∃ w left f, s = .join w left f ∧ w.thread = t := by
  cases s with
  | join w left f => exact ⟨w, left, f, rfl, Option.some.inj h⟩
  | _ => cases h

theorem eq_over {s : Demo.Stage} {f : Demo.Failure} (h : s.failure? = some f) :
    s = .over (some f) := by
  cases s with
  | «over» f' => exact congrArg Demo.Stage.over h
  | _ => cases h

/-- The workers that are to be started, after some turns. -/
def crewAfter (turns : List Turn) : Demo halting sink := (Demo.begin takenDebugger 3).takeAll turns

/-- The first worker is parked when the second one fails. It is let go, and begins at most one more
run; and in the end all is as it was, but for the execution that somebody else has registered. -/
theorem taken_undone : (crewAfter firstWorker).debugger.isParked 2 = true ∧
    ((crewAfter (firstWorker ++ secondWorker)).debugger.isParked 2 = false ∧
      ∀ more, (∀ turn ∈ more, turn.Abides (· = ⟨1⟩)) →
        (crewAfter (firstWorker ++ secondWorker)).runsBegun 2 more ≤ 1) ∧
    (crewAfter (firstWorker ++ secondWorker ++ lastRun)).workers.length = 1 ∧
    (crewAfter (firstWorker ++ secondWorker ++ lastRun)).Undone (· = ⟨1⟩) takenDebugger ∧
    ∀ w ∈ (crewAfter (firstWorker ++ secondWorker ++ lastRun)).workers,
      (crewAfter (firstWorker ++ secondWorker ++ lastRun)).Gone takenDebugger w := by
  obtain ⟨w, left, f, hstage, hthread⟩ : ∃ w left f,
      (crewAfter (firstWorker ++ secondWorker)).stage = .join w left f ∧ w.thread = 2 :=
      eq_join (by decide +kernel)
  have hover : (crewAfter (firstWorker ++ secondWorker ++ lastRun)).stage =
      .over (some (.attach "demo-1" (.alreadyAttached ⟨0x1010⟩))) := eq_over (by decide +kernel)
  obtain ⟨-, -, hjoin, -⟩ := Demo.started_or_undone takenDebugger_ready
    fun turn hturn => lastRun_abides turn (List.mem_append_left lastRun hturn)
  obtain ⟨-, hundone, -, hgone⟩ := Demo.started_or_undone takenDebugger_ready lastRun_abides
  have hwaited := hjoin w left f hstage
  rw [hthread] at hwaited
  exact ⟨by decide +kernel, hwaited, by decide +kernel, hundone _ hover, hgone _ hover⟩

end Rehearsal

end ScriptDebug
