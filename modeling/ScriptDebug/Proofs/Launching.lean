import Mathlib.Data.List.Nodup
import ScriptDebug.Proofs.Crew

/-!
# Starting and stopping the demo threads

The command thread starts workers one after the other, and stops them again: all of them on request,
and those that it has started when a start fails. Meanwhile the workers run, and others use the
debugger.

1. A turn is an event of the demo threads, or of others that use the debugger on threads of their
   own (`Turn`).
2. `AtStage` says of each stage which executions are registered and hooked, and which workers may
   still be running; together with the crew it holds after every sequence of turns
   (`Manned.takeAll`).
-/

namespace ScriptDebug

namespace Demo

open Debugger (Changed Attaching Detaching Crew)

variable {logic : Logic} {sink : Sink} {F : Handle → Prop} {d₀ g g' : Debugger (setup logic sink)}
  {d : Demo logic sink} {ws left : List Worker} {w v : Worker} {s : Stage} {keepOn : Bool}
  {count i : Nat} {t : ThreadId} {turns : List Turn}

/-! ## Turns -/

/-- **Turn** while there are demo threads: an event of theirs, or others use the debugger, on
threads of their own. -/
inductive Turn where
  | own (e : Event)
  | call (t : ThreadId) (op : Operation)
  | spawn (op : Operation)

/-- A turn keeps to the given executions, if it is not one of the demo threads. -/
def Turn.Abides (F : Handle → Prop) : Turn → Prop
  | .own _ => True
  | .call _ op | .spawn op => op.Abides F

/-- Whether a thread belongs to others. -/
def isOthers (d : Demo logic sink) (t : ThreadId) : Bool :=
  t != d.commands && !(threads d.workers).contains t

/-- What a turn does; one that cannot be taken does nothing. -/
def take (d : Demo logic sink) : Turn → Demo logic sink
  | .own e => d.step e
  | .call t op => if d.isOthers t then { d with debugger := d.debugger.take (.call t op) } else d
  | .spawn op => { d with debugger := d.debugger.spawn op }

/-- The demo threads after any sequence of turns. -/
def takeAll (d : Demo logic sink) (turns : List Turn) : Demo logic sink := turns.foldl take d

/-- The handle of the execution thread that is made behind `i` others. -/
def newHandle (m : Script.Machine) : Nat → Handle
  | 0 => ⟨m.next⟩
  | i + 1 => ⟨(newHandle m i).raw + 0x10⟩

/-- **Ready** to start workers: the command thread has nothing to do, and whoever else uses the
debugger keeps to other executions than the new ones. Some of these may be registered all the same;
the others have no hooks, as only an execution thread that there is can get one. -/
structure Ready (F : Handle → Prop) (d₀ : Debugger (setup logic sink)) (count : Nat) : Prop where
  logic : logic.Abides F
  started : 0 < d₀.threads.length
  idle : (d₀.thread 0).agenda = []
  abides : ∀ t, ∀ a ∈ (d₀.thread t).agenda, a.Abides F
  new : ∀ i < count, ¬ F (newHandle d₀.host i)
  unhooked : ∀ i < count, d₀.lookup (newHandle d₀.host i) = none →
    Script.Machine.isHooked d₀.host (newHandle d₀.host i) = false
  consistent : ∀ x ∈ d₀.contexts, x.Consistent
  ascends : d₀.Ascends

/-! ## Stages -/

/-- **Rests.** The command thread has nothing to do,
and just the given executions are registered and hooked. -/
def Rests (F : Handle → Prop) (d₀ g : Debugger (setup logic sink)) (hs : List Handle) : Prop :=
  (g.thread 0).agenda = [] ∧ Changed F d₀ g hs hs

/-- **Winding.** No worker goes on, and all have ended but those that are left. -/
structure Winding (ws : List Worker) (keepOn : Bool) (left : List Worker) : Prop where
  off : keepOn = false
  suffix : left.map Worker.badge <:+ ws.map Worker.badge
  ended : ∀ v ∈ ws, v.work = .over ∨ v.badge ∈ left.map Worker.badge

/-- **Counting.** Of all workers that are to be started, `i` have a thread,
and `made` execution threads were made. -/
structure Counting (d₀ : Debugger (setup logic sink)) (count : Nat)
    (g : Debugger (setup logic sink)) (ws : List Worker) (i n made : Nat) : Prop where
  all : n = count
  started : i = ws.length
  next : Script.Machine.next g.host = (newHandle d₀.host made).raw

/-- **What holds at a stage.** -/
def AtStage (F : Handle → Prop) (d₀ : Debugger (setup logic sink)) (count : Nat)
    (g : Debugger (setup logic sink)) (ws : List Worker) (keepOn : Bool) : Stage → Prop
  | .start i n => Counting d₀ count g ws i n i ∧ i ≤ count ∧ Rests F d₀ g (handles ws)
  | .attach i n h => Counting d₀ count g ws i n (i + 1) ∧ i < count ∧
    h = newHandle d₀.host i ∧ Script.Machine.knows g.host h = true ∧
    Attaching F d₀ (handles ws) h (workerName i) g (g.thread 0).agenda (g.thread 0).answer
  | .spawn i n h =>
    Counting d₀ count g ws i n (i + 1) ∧ i < count ∧ h ∉ handles ws ∧ Rests F d₀ g (h :: handles ws)
  | .undo _ => ∃ h, h ∉ handles ws ∧ Detaching F d₀ (handles ws) h g (g.thread 0).agenda
  | .running => ws.length = count ∧ Rests F d₀ g (handles ws)
  | .stop left _ => Winding ws keepOn left ∧ Rests F d₀ g (handles left)
  | .detach w left _ =>
    Winding ws keepOn (w :: left) ∧ Detaching F d₀ (handles left) w.handle g (g.thread 0).agenda
  | .join w left _ => Winding ws keepOn (w :: left) ∧ Rests F d₀ g (handles left)
  | .over _ => Winding ws keepOn [] ∧ Rests F d₀ g []

/-- **Manned.** What holds of demo threads at all times. -/
structure Manned (F : Handle → Prop) (d₀ : Debugger (setup logic sink)) (count : Nat)
    (d : Demo logic sink) : Prop where
  commands : d.commands = 0
  crew : Crew F d₀ d.debugger d.workers
  stage : AtStage F d₀ count d.debugger d.workers d.keepOn d.stage

/-! ## Stages while others take turns -/

theorem Rests.respects {hs : List Handle} (hrests : Rests F d₀ g hs) (hr : g.Respects F g')
    (h0 : g'.thread 0 = g.thread 0) : Rests F d₀ g' hs :=
  ⟨h0 ▸ hrests.1, hrests.2.respects hr⟩

theorem Counting.congr {i n made : Nat} (hcount : Counting d₀ count g ws i n made)
    (hnext : Script.Machine.next g'.host = Script.Machine.next g.host) :
    Counting d₀ count g' ws i n made :=
  ⟨hcount.all, hcount.started, hnext.trans hcount.next⟩

theorem AtStage.respects (hat : AtStage F d₀ count g ws keepOn s) (hr : g.Respects F g')
    (hnext : Script.Machine.next g'.host = Script.Machine.next g.host)
    (h0 : g'.thread 0 = g.thread 0) :
    AtStage F d₀ count g' ws keepOn s := by
  cases s with
  | start i n =>
    obtain ⟨hcount, hi, hrests⟩ := hat
    exact ⟨hcount.congr hnext, hi, hrests.respects hr h0⟩
  | attach i n h =>
    obtain ⟨hcount, hi, hh, hknows, hattach⟩ := hat
    exact ⟨hcount.congr hnext, hi, hh, hr.knows hknows, by rw [h0]; exact hattach.respects hr⟩
  | spawn i n h =>
    obtain ⟨hcount, hi, hnew, hrests⟩ := hat
    exact ⟨hcount.congr hnext, hi, hnew, hrests.respects hr h0⟩
  | undo f =>
    obtain ⟨h, hnew, hdt⟩ := hat
    exact ⟨h, hnew, by rw [h0]; exact hdt.respects hr⟩
  | detach w left f => exact ⟨hat.1, by rw [h0]; exact hat.2.respects hr⟩
  | running => exact ⟨hat.1, hat.2.respects hr h0⟩
  | stop left f => exact ⟨hat.1, hat.2.respects hr h0⟩
  | join w left f => exact ⟨hat.1, hat.2.respects hr h0⟩
  | «over» f => exact ⟨hat.1, hat.2.respects hr h0⟩

theorem AtStage.changed (hat : AtStage F d₀ count g ws keepOn s) :
    ∃ regs hooks, Changed F d₀ g regs hooks := by
  cases s with
  | start i n =>
    obtain ⟨-, -, hrests⟩ := hat
    exact ⟨_, _, hrests.2⟩
  | attach i n h =>
    obtain ⟨-, -, -, -, hattach⟩ := hat
    exact hattach.changed
  | spawn i n h =>
    obtain ⟨-, -, -, hrests⟩ := hat
    exact ⟨_, _, hrests.2⟩
  | undo f =>
    obtain ⟨h, -, hdt⟩ := hat
    exact hdt.changed
  | detach w left f => exact hat.2.changed
  | running | stop | join | «over» =>
    obtain ⟨-, hrests⟩ := hat
    exact ⟨_, _, hrests.2⟩

theorem Winding.not_mem (hw : Winding ws keepOn (w :: left)) (hnodup : (handles ws).Nodup) :
    w.handle ∉ handles left := by
  have hsuffix : handles (w :: left) <:+ handles ws := by
    have h := hw.suffix.map Prod.fst
    rwa [List.map_map, List.map_map] at h
  exact (List.nodup_cons.1 (hnodup.sublist hsuffix.sublist)).1

theorem Winding.tail (hw : Winding ws keepOn (w :: left)) (hnodup : (threads ws).Nodup)
    (hended : (ws.any fun v => v.thread == w.thread && v.work == .over) = true) :
    Winding ws keepOn left := by
  obtain ⟨u, hu, huw⟩ := List.any_eq_true.1 hended
  obtain ⟨hthread, hover⟩ : u.thread = w.thread ∧ u.work = .over := by simpa using huw
  refine ⟨hw.off, (List.suffix_cons _ _).trans hw.suffix, fun v hv => ?_⟩
  rcases hw.ended v hv with hv' | hv'
  · exact .inl hv'
  · rcases List.mem_cons.1 hv' with hbadge | hv'
    · have huv : u = v :=
        List.inj_on_of_nodup_map hnodup hu hv (hthread.trans (congrArg Prod.snd hbadge).symm)
      exact .inl (huv ▸ hover)
    · exact .inr hv'

/-- **A step of the command thread** goes on with the attach or the detach of its stage. -/
theorem AtStage.step_own (hready : Ready F d₀ count) (hat : AtStage F d₀ count g ws keepOn s)
    (hcrew : Crew F d₀ g ws) (hstep : g.step 0 = some g') : AtStage F d₀ count g' ws keepOn s := by
  obtain ⟨a, rest, e, todo, ans, hag, hact, rfl, hself, -⟩ := Debugger.step_cases hstep
  -- a thread that rests takes no step
  have hbusy : ∀ {hs}, ¬ Rests F d₀ g hs :=
    fun hrests => List.cons_ne_nil a rest (hag.symm.trans hrests.1)
  have hr : e.Respects F (e.setThread 0 ⟨todo ++ rest, ans⟩) :=
    Debugger.respects_of_eq rfl rfl (fun _ => rfl) id
  cases s with
  | start i n =>
    obtain ⟨-, -, hrests⟩ := hat
    exact absurd hrests hbusy
  | attach i n h =>
    obtain ⟨hcount, hi, rfl, hknows, hattach⟩ := hat
    have hcount' : Counting d₀ count (e.setThread 0 ⟨todo ++ rest, ans⟩) ws i n (i + 1) :=
      (hcount.congr (Debugger.act_next hact)).congr rfl
    have hstays := Debugger.act_knows hact hknows
    rw [hag] at hattach
    have hattach' :=
      hattach.act hready.logic (hready.new i hi) (hready.unhooked i hi) hcrew.length hknows hact
    exact ⟨hcount', hi, rfl, hstays, by rw [hself]; exact hattach'.respects hr⟩
  | spawn i n h =>
    obtain ⟨-, -, -, hrests⟩ := hat
    exact absurd hrests hbusy
  | undo f =>
    obtain ⟨h, hnew, hdt⟩ := hat
    rw [hag] at hdt
    exact ⟨h, hnew, by rw [hself]; exact (hdt.act hready.logic hnew hact).respects hr⟩
  | detach w left f =>
    obtain ⟨hw, hdt⟩ := hat
    rw [hag] at hdt
    refine ⟨hw, ?_⟩
    rw [hself]
    exact (hdt.act hready.logic (hw.not_mem hcrew.handles) hact).respects hr
  | running | stop | join | «over» => exact absurd hat.2 hbusy

/-- **A worker goes on** to other work; the stage stays what it is. -/
theorem AtStage.goTo {work : Work} (hat : AtStage F d₀ count g ws keepOn s)
    (hnodup : (threads ws).Nodup) (hi : ws[i]? = some w) (hwork : w.work ≠ .over) :
    AtStage F d₀ count g (ws.modify i fun w => { w with work }) keepOn s := by
  have hlength : (ws.modify i fun w => { w with work }).length = ws.length := List.length_modify ..
  have hwinding : ∀ {left}, Winding ws keepOn left →
      Winding (ws.modify i fun w => { w with work }) keepOn left := by
    intro left hw
    refine ⟨hw.off, by rw [map_modify_work fun _ _ => rfl]; exact hw.suffix, fun v hv => ?_⟩
    rcases mem_modify_work hnodup hi hv with rfl | ⟨hv, -⟩
    · exact .inr ((hw.ended w (List.mem_of_getElem? hi)).resolve_left hwork)
    · exact hw.ended v hv
  have hcounting : ∀ {i' n made}, Counting d₀ count g ws i' n made →
      Counting d₀ count g (ws.modify i fun w => { w with work }) i' n made := fun hcount =>
    ⟨hcount.all, hcount.started.trans hlength.symm, hcount.next⟩
  cases s with
  | start | attach | spawn => exact ⟨hcounting hat.1, by rw [handles_modify]; exact hat.2⟩
  | undo | running => simpa only [AtStage, handles_modify, hlength] using hat
  | stop | detach | join | «over» => exact ⟨hwinding hat.1, hat.2⟩

/-! ## One turn -/

theorem Manned.begin (hready : Ready F d₀ count) : Manned F d₀ count (begin d₀ count) where
  commands := rfl
  crew := {
    abides := fun t _ => hready.abides t
    started := hready.started
    length := Nat.le_refl _
    consistent := hready.consistent
    ascends := hready.ascends
    tidy := fun _ _ hN hx _ => absurd (List.getElem?_eq_some_iff.1 hx).1 (Nat.not_lt.2 hN)
    steered := fun _ hw => absurd hw List.not_mem_nil
    threads := List.nodup_nil
    handles := List.nodup_nil }
  stage := ⟨⟨rfl, rfl, rfl⟩, Nat.zero_le count, hready.idle, Debugger.unchanged F d₀⟩

/-! ### The command thread -/

theorem winding_all (ws : List Worker) : Winding ws false ws :=
  ⟨rfl, List.suffix_rfl, fun _ hv => .inr (List.mem_map_of_mem hv)⟩

theorem detaching_call {h : Handle} {hs : List Handle} (hcrew : Crew F d₀ g ws)
    (hch : Changed F d₀ g (h :: hs) (h :: hs)) :
    Detaching F d₀ hs h (g.call 0 (.detach h)) ((g.call 0 (.detach h)).thread 0).agenda := by
  rw [Debugger.thread_call_self hcrew.started]
  exact .begin (hch.respects ((g.sameBut_call 0 (.detach h)).respects F))

theorem AtStage.create {n : Nat} (hat : AtStage F d₀ count g ws keepOn (.start i n))
    (hcrew : Crew F d₀ g ws) (hi : i < count) :
    let made := Script.Machine.create g.host (workerName i)
    AtStage F d₀ count
      (Debugger.call { g with host := made.1 } 0 (.attach made.2 (workerName i))) ws keepOn
      (.attach i n made.2) := by
  intro made
  obtain ⟨hcount, -, -, hch⟩ := hat
  have hr := (g.sameBut_create (workerName i)).respects F
  have hcall :=
    Debugger.thread_call_self (hcrew.create (workerName i)).started (.attach made.2 (workerName i))
  refine ⟨⟨hcount.all, hcount.started, ?_⟩, hi, congrArg Handle.mk hcount.next,
    congrArg Option.isSome (Ascending.get?_put_self ..), ?_⟩
  · show Script.Machine.next g.host + 0x10 = _
    rw [hcount.next]
    rfl
  · rw [hcall]
    exact .begin ((hch.respects hr).respects ((Debugger.sameBut_call _ 0 _).respects F))

/-- The attach has returned: the execution gets a thread, or all that were started are stopped. -/
theorem AtStage.attached {n : Nat} {h : Handle}
    (hat : AtStage F d₀ count g ws keepOn (.attach i n h)) (hidle : (g.thread 0).agenda = []) :
    (∃ f, (g.thread 0).answer = .registered (.error f)) ∧ Rests F d₀ g (handles ws) ∨
      (g.thread 0).answer = .registered (.ok ()) ∧
      AtStage F d₀ count g ws keepOn (.spawn i n h) := by
  obtain ⟨hcount, hi, -, -, hattach⟩ := hat
  generalize hag : (g.thread 0).agenda = as at hattach
  generalize hans : (g.thread 0).answer = ans at hattach
  cases hattach with
  | @failed f hch => exact .inl ⟨⟨f, rfl⟩, hag, hch⟩
  | done hnew hch => exact .inr ⟨rfl, hcount, hi, hnew, hag, hch⟩
  | told => exact absurd (hag.symm.trans hidle) (by simp)
  | _ => cases hag.symm.trans hidle

theorem AtStage.addWorker {n : Nat} {h : Handle} {t : ThreadId}
    (hat : AtStage F d₀ count g ws keepOn (.spawn i n h)) :
    AtStage F d₀ count { g with threads := g.threads ++ [{}] }
      (ws ++ [{ handle := h, thread := t }]) keepOn
      (.start (i + 1) n) := by
  obtain ⟨hcount, hi, -, hidle, hch⟩ := hat
  have hr : g.Respects F { g with threads := g.threads ++ [{}] } :=
    Debugger.respects_of_eq rfl rfl (fun _ => rfl) id
  refine ⟨⟨hcount.all, by simp [hcount.started], hcount.next⟩, hi, ?_, ?_⟩
  · rw [Debugger.thread_append]
    exact hidle
  · refine (hch.respects hr).congr fun x => ?_
    simp [handles, or_comm]

/-- **A step of the command thread on its own:** it comes to the next stage. -/
theorem Manned.control (hready : Ready F d₀ count) (hm : Manned F d₀ count d)
    (fault : Option String) :
    Manned F d₀ count (d.control fault) := by
  obtain ⟨g, commands, keepOn, ws, stage⟩ := d
  obtain ⟨rfl, hcrew, hat⟩ := hm
  cases stage with
  | start i n =>
    obtain ⟨hcount, hi, hrests⟩ := id hat
    obtain rfl := hcount.all
    simp only [Demo.control]
    split
    · rename_i hle
      exact ⟨rfl, hcrew, hcount.started.symm.trans (Nat.le_antisymm hi hle), hrests⟩
    · rename_i hlt
      exact ⟨rfl, (hcrew.create _).call_own hrests.1 _, hat.create hcrew (Nat.lt_of_not_le hlt)⟩
  | attach i n h =>
    simp only [Demo.control]
    split
    · exact ⟨rfl, hcrew, hat⟩
    · rename_i hbusy
      have hidle : (g.thread 0).agenda = [] := by simpa [isIdle] using hbusy
      rcases hat.attached hidle with ⟨⟨f, hans⟩, hrests⟩ | ⟨hans, hspawn⟩
      · simp only [hans]
        exact ⟨rfl, hcrew, winding_all ws, hrests⟩
      · simp only [hans]
        exact ⟨rfl, hcrew, hspawn⟩
  | spawn i n h =>
    obtain ⟨-, -, hnew, hidle, hch⟩ := id hat
    cases fault with
    | none => exact ⟨rfl, hcrew.addWorker hch List.mem_cons_self hnew, hat.addWorker⟩
    | some reason => exact ⟨rfl, hcrew.call_own hidle _, h, hnew, detaching_call hcrew hch⟩
  | undo f =>
    simp only [Demo.control]
    split
    · rename_i hidle
      obtain ⟨h, -, hdt⟩ := hat
      have hidle : (g.thread 0).agenda = [] := List.isEmpty_iff.1 hidle
      rw [hidle] at hdt
      exact ⟨rfl, hcrew, winding_all ws, hidle, hdt.over⟩
    · exact ⟨rfl, hcrew, hat⟩
  | running => exact ⟨rfl, hcrew, hat⟩
  | stop left f =>
    cases left with
    | nil => exact ⟨rfl, hcrew, hat⟩
    | cons w left => exact ⟨rfl, hcrew.call_own hat.2.1 _, hat.1, detaching_call hcrew hat.2.2⟩
  | detach w left f =>
    simp only [Demo.control]
    split
    · rename_i hidle
      obtain ⟨hw, hdt⟩ := hat
      have hidle : (g.thread 0).agenda = [] := List.isEmpty_iff.1 hidle
      rw [hidle] at hdt
      exact ⟨rfl, hcrew, hw, hidle, hdt.over⟩
    · exact ⟨rfl, hcrew, hat⟩
  | join w left f =>
    simp only [Demo.control]
    split
    · rename_i hended
      exact ⟨rfl, hcrew, hat.1.tail hcrew.threads hended, hat.2⟩
    · exact ⟨rfl, hcrew, hat⟩
  | «over» f => exact ⟨rfl, hcrew, hat⟩

/-! ### Workers and others -/

/-- **A step of a worker on its own:** it looks whether to go on, begins a run, or ends. -/
theorem Manned.work (hm : Manned F d₀ count d) (i : Nat) : Manned F d₀ count (d.work i) := by
  have hgoTo : ∀ {w : Worker} (work : Work), d.workers[i]? = some w →
      (d.debugger.thread w.thread).agenda = [] →
      w.work ≠ .over → work ≠ .run → Manned F d₀ count (d.goTo i work) := by
    intro w work hi hidle hover hrun
    refine ⟨hm.commands, hm.crew.goTo hi ?_, hm.stage.goTo hm.crew.threads hi hover⟩
    cases work with
    | run => exact absurd rfl hrun
    | _ => exact hidle
  unfold Demo.work
  split
  · exact hm
  · rename_i w hi
    have hw := hm.crew.steered w (List.mem_of_getElem? hi)
    split
    · rename_i hlook
      have hidle : (d.debugger.thread w.thread).agenda = [] := by
        have hag := hw.agenda
        unfold Debugger.Agenda at hag
        rwa [hlook] at hag
      have hover : w.work ≠ .over := by rw [hlook]; exact nofun
      split
      · have hr := (d.debugger.sameBut_call w.thread (.run w.handle)).respects F
        have h0 := Debugger.thread_call_ne (d := d.debugger) (Nat.ne_of_lt hw.pos) (.run w.handle)
        exact ⟨hm.commands, hm.crew.callRun hi hlook,
          (hm.stage.respects hr rfl h0).goTo hm.crew.threads hi hover⟩
      · exact hgoTo .over hi hidle hover nofun
    · rename_i hrun
      have hover : w.work ≠ .over := by rw [hrun]; exact nofun
      split
      · exact hm
      · rename_i hbusy
        have hidle : (d.debugger.thread w.thread).agenda = [] := by simpa [isIdle] using hbusy
        split
        · exact hgoTo .over hi hidle hover nofun
        · exact hgoTo .look hi hidle hover nofun
    · exact hm

theorem Manned.shutDown (hm : Manned F d₀ count d) : Manned F d₀ count (d.step .shutDown) := by
  obtain ⟨g, commands, keepOn, ws, stage⟩ := d
  obtain ⟨rfl, hcrew, hat⟩ := hm
  cases stage with
  | running => exact ⟨rfl, hcrew, winding_all ws, hat.2⟩
  | _ => exact ⟨rfl, hcrew, hat⟩

/-- **A step of a thread.** -/
theorem Manned.turn (hready : Ready F d₀ count) (hm : Manned F d₀ count d) (t : ThreadId) :
    Manned F d₀ count (d.step (.turn t)) := by
  show Manned F d₀ count { d with debugger := (d.debugger.step t).getD d.debugger }
  cases hstep : d.debugger.step t with
  | none => exact hm
  | some g =>
    by_cases ht : t = 0
    · subst ht
      exact ⟨hm.commands, hm.crew.step_own hstep, hm.stage.step_own hready hm.crew hstep⟩
    · obtain ⟨regs, hooks, hch⟩ := hm.stage.changed
      obtain ⟨hcrew, hr, hnext, h0⟩ := hm.crew.step_other hready.logic hch ht hstep
      exact ⟨hm.commands, hcrew, hm.stage.respects hr hnext h0⟩

theorem Manned.wake (hm : Manned F d₀ count d) (t : ThreadId) (c : ContextId) :
    Manned F d₀ count (d.step (.wake t c)) := by
  have hsame : (d.debugger.wakeEarly t c).host = d.debugger.host ∧
      (d.debugger.wakeEarly t c).threads = d.debugger.threads := by
    unfold Debugger.wakeEarly
    split <;> exact ⟨rfl, rfl⟩
  have h0 : (d.debugger.wakeEarly t c).thread 0 = d.debugger.thread 0 := by
    unfold Debugger.thread
    rw [hsame.2]
  exact ⟨hm.commands, hm.crew.wakeEarly t c,
    hm.stage.respects (Debugger.respects_wakeEarly F d.debugger t c)
    (congrArg Script.Machine.next hsame.1) h0⟩

/-- **A turn** leaves the demo threads manned. -/
theorem Manned.take (hready : Ready F d₀ count) (hm : Manned F d₀ count d) {turn : Turn}
    (hturn : turn.Abides F) :
    Manned F d₀ count (d.take turn) := by
  cases turn with
  | own e =>
    cases e with
    | control fault => exact hm.control hready fault
    | work i => exact hm.work i
    | shutDown => exact hm.shutDown
    | turn t => exact hm.turn hready t
    | wake t c => exact hm.wake t c
  | call t op =>
    simp only [Demo.take]
    split
    · rename_i hothers
      obtain ⟨ht, hws⟩ : t ≠ 0 ∧ t ∉ threads d.workers := by
        simpa [isOthers, hm.commands] using hothers
      have hr := (d.debugger.sameBut_call t op).respects F
      simp only [Debugger.take]
      split
      · exact ⟨hm.commands, hm.crew.call_other ht hws hturn,
          hm.stage.respects hr rfl (Debugger.thread_call_ne ht.symm op)⟩
      · exact hm
    · exact hm
  | spawn op =>
    have hr : d.debugger.Respects F (d.debugger.spawn op) :=
      Debugger.respects_of_eq rfl rfl (fun _ => rfl) id
    have h0 :=
      (d.debugger.thread_spawn op 0).resolve_right fun h => Nat.ne_of_lt hm.crew.started h.1
    exact ⟨hm.commands, hm.crew.spawn hturn, hm.stage.respects hr rfl h0⟩

/-- **At all times** the demo threads are manned. -/
theorem Manned.takeAll (hready : Ready F d₀ count) (hm : Manned F d₀ count d)
    (hturns : ∀ turn ∈ turns, turn.Abides F) :
    Manned F d₀ count (d.takeAll turns) := by
  induction turns generalizing d with
  | nil => exact hm
  | cons turn turns ih =>
    exact ih (hm.take hready (hturns turn List.mem_cons_self)) fun t ht =>
      hturns t (List.mem_cons_of_mem turn ht)

end Demo

end ScriptDebug
