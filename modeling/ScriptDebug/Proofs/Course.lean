import ScriptDebug.Script.Machine
import ScriptDebug.Script.Trace

/-!
# The course of a program

A run has no choices of its own: every instruction makes one stroke, and the strokes of a whole run
can be told from the program.

1. `Program.strokesFrom` are the strokes of an activation, by recursion over the program;
   `Program.strokesOf` are those that an instruction comes to. An instruction that is obeyed makes
   the first of its strokes and leaves the others to the instructions in its place (`obey_strokes`);
   only where the hook is gone some of what was to be told is left out.
2. What a stroke does to the machine is `Stroke.onFrames` for the frames and `Stroke.assigned?` for
   the globals; `Carries` says that a machine has done some strokes and nothing else.
3. Whatever an activation does, it leaves the frames as they were (`framesBehind_strokesFrom`).
-/

namespace ScriptDebug.Script

/-- **Stroke.** What a run does at once. -/
inductive Stroke where
  /-- Tell the hook. -/
  | tell (report : Hook.Report)
  /-- Put a frame on the stack. -/
  | enter (f : Function)
  | reach (line : Int)
  | declare (v : Variable)
  | assign (v : Variable)
  /-- Come to a call. -/
  | call (target : String)
  /-- Take the innermost frame off the stack. -/
  | leave

namespace Stroke

/-- What the hook is told. -/
def report? : Stroke → Option Hook.Report
  | tell r => some r
  | _ => none

/-- The global that is assigned. -/
def assigned? : Stroke → Option Variable
  | assign v => some v
  | _ => none

/-- The frames behind a stroke. -/
def onFrames : Stroke → List Frame → List Frame
  | enter f, frames => { function := f, line := f.lineDefined } :: frames
  | reach line, frame :: outer => { frame with line } :: outer
  | declare v, frame :: outer => { frame with locals := frame.locals ++ [v] } :: outer
  | leave, frames => frames.tail
  | _, frames => frames

end Stroke

/-- The frames behind some strokes. -/
def framesBehind (frames : List Frame) (strokes : List Stroke) : List Frame :=
  strokes.foldl (fun frames s => s.onFrames frames) frames

/-- What the hook is told by some strokes, and the frames at that time. -/
def seen (frames : List Frame) : List Stroke → List (Hook.Report × List Frame)
  | [] => []
  | s :: rest => (s.report?.map (·, frames)).toList ++ seen (s.onFrames frames) rest

section Seen

variable (frames : List Frame) (s : Stroke) (l r : List Stroke)

@[simp] theorem framesBehind_nil : framesBehind frames [] = frames := rfl

@[simp] theorem framesBehind_cons :
    framesBehind frames (s :: l) = framesBehind (s.onFrames frames) l := rfl

theorem framesBehind_append :
    framesBehind frames (l ++ r) = framesBehind (framesBehind frames l) r :=
  List.foldl_append

theorem seen_append : seen frames (l ++ r) = seen frames l ++ seen (framesBehind frames l) r := by
  induction l generalizing frames with
  | nil => rfl
  | cons s l ih => simp [seen, ih]

end Seen

/-! ## The strokes of a program -/

namespace Program

variable (p : Program) (f : Function) (tag : String)

/-- The strokes of carrying out a statement, given those of the call of another function. -/
def statementStrokes (callee : Function → List Stroke) : Statement → List Stroke
  | .declare _ name v => [.declare (name, v)]
  | .assign _ name v => [.assign (name, v)]
  | .call _ target => .call target ::
    match p.find? target with
    | some g => callee g
    | none => [.tell (nativeReport target .call), .tell (nativeReport target .return)]

/-- The strokes of a line of a function. -/
def lineStrokes (callee : Function → List Stroke) (s : Statement) : List Stroke :=
  .reach s.line :: .tell (p.report f tag .line s.line) :: p.statementStrokes callee s

/-- The strokes of one activation of a function. -/
def activationStrokes (callee : Function → List Stroke) : List Stroke :=
  [.enter f, .tell (p.report f tag .call f.lineDefined)] ++
    f.body.flatMap (p.lineStrokes f tag callee) ++
    [.tell (p.report f tag .return f.lastLineDefined), .leave]

/-- The strokes of an activation when calls may nest `budget` deep below it. -/
def strokesFrom (p : Program) (f : Function) (tag : String) : Nat → List Stroke
  | 0 => p.activationStrokes f tag fun _ => []
  | budget + 1 => p.activationStrokes f tag fun g => p.strokesFrom g scriptTag budget

/-- The strokes of a call when calls may nest `budget` deep. -/
def calleeStrokes (p : Program) : Nat → Function → List Stroke
  | 0, _ => []
  | budget + 1, g => p.strokesFrom g scriptTag budget

/-- **Course.** The strokes of a whole run. -/
def course (p : Program) : List Stroke := p.strokesFrom p.main mainTag deepestCall

/-- The strokes that an instruction comes to. -/
def strokesOf : Instruction → List Stroke
  | .enter f => [.enter f]
  | .tell f tag kind line => [.tell (p.report f tag kind line)]
  | .reach line => [.reach line]
  | .execute s budget => p.statementStrokes (p.calleeStrokes budget) s
  | .callNative target => [.tell (nativeReport target .call), .tell (nativeReport target .return)]
  | .returnNative target => [.tell (nativeReport target .return)]
  | .leave => [.leave]

/-- The strokes that are left of a run. -/
def strokesLeft (todo : List Instruction) : List Stroke := todo.flatMap p.strokesOf

theorem strokesFrom_eq (budget : Nat) :
    p.strokesFrom f tag budget = p.activationStrokes f tag (p.calleeStrokes budget) := by
  cases budget <;> rfl

theorem strokesLeft_append (l r : List Instruction) :
    p.strokesLeft (l ++ r) = p.strokesLeft l ++ p.strokesLeft r := List.flatMap_append

theorem strokesLeft_instructions (budget : Nat) :
    p.strokesLeft (f.instructions tag budget) = p.strokesFrom f tag budget := by
  have hbody : p.strokesLeft (f.body.flatMap (Statement.instructions f tag budget)) =
      f.body.flatMap (p.lineStrokes f tag (p.calleeStrokes budget)) := by
    unfold strokesLeft
    rw [List.flatMap_assoc]
    congr 1
    funext s
    show .reach s.line :: .tell (p.report f tag .line s.line) :: (p.statementStrokes _ s ++ []) = _
    rw [List.append_nil]
    rfl
  rw [strokesFrom_eq, Function.instructions, strokesLeft_append, strokesLeft_append, hbody]
  rfl

end Program

theorem Machine.strokesLeft_agenda (m : Machine) :
    m.program.strokesLeft m.agenda = m.program.course :=
  m.program.strokesLeft_instructions m.program.main mainTag deepestCall

/-! ## The frames of an activation -/

section Balance

variable {p : Program} {f : Function} {tag : String} {callee : Function → List Stroke}
  {frames : List Frame}

/-- A line of a function changes the innermost frame only, if calls leave the frames as they are. -/
theorem framesBehind_lineStrokes (hcallee : ∀ g frames, framesBehind frames (callee g) = frames)
    (s : Statement) (frame : Frame) (outer : List Frame) :
    ∃ frame', framesBehind (frame :: outer) (p.lineStrokes f tag callee s) = frame' :: outer := by
  cases s with
  | declare line name v => exact ⟨_, rfl⟩
  | assign line name v => exact ⟨_, rfl⟩
  | call line target =>
    refine ⟨{ frame with line }, ?_⟩
    simp only [Program.lineStrokes, Program.statementStrokes, framesBehind_cons, Stroke.onFrames]
    cases p.find? target with
    | some g => exact hcallee g _
    | none => rfl

theorem framesBehind_lines (hcallee : ∀ g frames, framesBehind frames (callee g) = frames)
    (body : List Statement) (frame : Frame) (outer : List Frame) :
    ∃ frame', framesBehind (frame :: outer) (body.flatMap (p.lineStrokes f tag callee)) =
      frame' :: outer := by
  induction body generalizing frame with
  | nil => exact ⟨frame, rfl⟩
  | cons s body ih =>
    obtain ⟨frame', hs⟩ := framesBehind_lineStrokes hcallee s frame outer
    rw [List.flatMap_cons, framesBehind_append, hs]
    exact ih frame'

theorem framesBehind_activationStrokes
    (hcallee : ∀ g frames, framesBehind frames (callee g) = frames) :
    framesBehind frames (p.activationStrokes f tag callee) = frames := by
  obtain ⟨frame, hbody⟩ :=
    framesBehind_lines hcallee f.body { function := f, line := f.lineDefined } frames
  rw [Program.activationStrokes, framesBehind_append, framesBehind_append]
  show framesBehind (framesBehind (_ :: frames) _) _ = frames
  rw [hbody]
  rfl

/-- **The stack is restored.** An activation leaves the frames as they were. -/
theorem framesBehind_strokesFrom (budget : Nat) :
    framesBehind frames (p.strokesFrom f tag budget) = frames := by
  induction budget generalizing f tag frames with
  | zero => exact framesBehind_activationStrokes fun _ _ => rfl
  | succ budget ih => exact framesBehind_activationStrokes fun _ _ => ih

end Balance

/-! ## What an instruction does -/

namespace Machine

variable {m : Machine} {h : Handle}

/-- The frames of an execution thread, the innermost first. -/
def frames (m : Machine) (h : Handle) : List Frame := ((m.execution? h).map (·.frames)).getD []

/-- Some globals are assigned, one behind the other. -/
def assignedTo (globals vs : List Variable) : List Variable :=
  vs.foldl (fun globals v => Ascending.put v.1 v.2 globals) globals

theorem frame?_eq (m : Machine) (h : Handle) (n : Nat) : m.frame? h n = (m.frames h)[n]? := by
  unfold frame? frames
  cases m.execution? h <;> rfl

/-- **Carries.** A machine that has done some strokes on an execution thread, and nothing else. -/
structure Carries (m : Machine) (h : Handle) (strokes : List Stroke) (m' : Machine) : Prop where
  program : m'.program = m.program
  hooked : m'.hooked = m.hooked
  globals : m'.globals = assignedTo m.globals (strokes.filterMap Stroke.assigned?)
  frames : m'.frames h = framesBehind (m.frames h) strokes
  knows : m'.knows h = true

theorem onFrames_of_knows (hk : m.knows h = true) (f : List Frame → List Frame) :
    ∃ x, m.execution? h = some x ∧ m.onFrames h f =
      { m with executions := Ascending.put h { x with frames := f x.frames } m.executions } := by
  obtain ⟨x, hx⟩ := Option.isSome_iff_exists.1 hk
  exact ⟨x, hx, by simp only [onFrames, hx]⟩

theorem frames_onFrames (hk : m.knows h = true) (f : List Frame → List Frame) :
    (m.onFrames h f).frames h = f (m.frames h) := by
  obtain ⟨x, hx, hset⟩ := onFrames_of_knows hk f
  have hnow : (m.onFrames h f).execution? h = some { x with frames := f x.frames } := by
    rw [hset]
    exact Ascending.get?_put_self ..
  rw [frames, hnow, frames, hx]
  rfl

theorem knows_onFrames (hk : m.knows h = true) (f : List Frame → List Frame) :
    (m.onFrames h f).knows h = true := by
  obtain ⟨x, hx, hset⟩ := onFrames_of_knows hk f
  rw [hset]
  exact congrArg Option.isSome (Ascending.get?_put_self ..)

theorem carries_onFrames (hk : m.knows h = true) {s : Stroke} (hs : s.assigned? = none) :
    m.Carries h [s] (m.onFrames h s.onFrames) := by
  obtain ⟨x, -, hset⟩ := onFrames_of_knows hk s.onFrames
  refine ⟨by rw [hset], by rw [hset], ?_, frames_onFrames hk _, knows_onFrames hk _⟩
  rw [hset, List.filterMap_cons_none hs]
  rfl

theorem onFrame_eq {g : Frame → Frame} {s : Stroke} (hnil : s.onFrames [] = [])
    (hcons : ∀ frame outer, s.onFrames (frame :: outer) = g frame :: outer) :
    m.onFrame h g = m.onFrames h s.onFrames := by
  unfold onFrame
  congr 1
  funext frames
  cases frames with
  | nil => exact hnil.symm
  | cons frame outer => exact (hcons frame outer).symm

theorem filterMap_assigned?_tells (reports : List Hook.Report) :
    (reports.map Stroke.tell).filterMap Stroke.assigned? = [] := by
  rw [List.filterMap_map]
  exact List.filterMap_eq_nil_iff.2 fun _ _ => rfl

theorem carries_tells (hk : m.knows h = true) (reports : List Hook.Report) :
    m.Carries h (reports.map .tell) m := by
  have hframes : ∀ frames, framesBehind frames (reports.map .tell) = frames := by
    intro frames
    induction reports with
    | nil => rfl
    | cons r reports ih => exact ih
  refine ⟨rfl, rfl, ?_, (hframes _).symm, hk⟩
  rw [filterMap_assigned?_tells]
  rfl

/-- **An instruction that is obeyed** makes the first of its strokes and leaves the others to what
comes in its place. Where there is no hook, some of what was to be told is left out. -/
theorem obey_strokes (hk : m.knows h = true) (i : Instruction) :
    ∃ s silent, m.program.strokesOf i =
        s :: (silent.map .tell ++ m.program.strokesLeft (m.obey h i).2.2) ∧
      m.Carries h (s :: silent.map .tell) (m.obey h i).1 ∧
      (m.isHooked h = true → silent = [] ∧ (m.obey h i).2.1 = s.report?) := by
  cases i with
  | enter f => exact ⟨.enter f, [], rfl, carries_onFrames hk rfl, fun _ => ⟨rfl, rfl⟩⟩
  | leave => exact ⟨.leave, [], rfl, carries_onFrames hk rfl, fun _ => ⟨rfl, rfl⟩⟩
  | reach line =>
    have hframe : (m.obey h (.reach line)).1 = m.onFrames h (Stroke.reach line).onFrames :=
      onFrame_eq rfl fun _ _ => rfl
    rw [hframe]
    exact ⟨.reach line, [], rfl, carries_onFrames hk rfl, fun _ => ⟨rfl, rfl⟩⟩
  | tell f tag kind line =>
    refine ⟨.tell (m.program.report f tag kind line), [], ?_, carries_tells hk [_],
      fun hhook => ⟨rfl, ?_⟩⟩
    · simp only [obey, told]
      split <;> rfl
    · simp only [obey, told, hhook, if_true]
      rfl
  | returnNative target =>
    refine ⟨.tell (nativeReport target .return), [], ?_, carries_tells hk [_],
      fun hhook => ⟨rfl, ?_⟩⟩
    · simp only [obey, told]
      split <;> rfl
    · simp only [obey, told, hhook, if_true]
      rfl
  | callNative target =>
    cases hhook : m.isHooked h with
    | true =>
      refine ⟨.tell (nativeReport target .call), [], ?_, carries_tells hk [_],
        fun _ => ⟨rfl, ?_⟩⟩ <;>
        simp only [obey, told, hhook, if_true] <;> rfl
    | false =>
      refine ⟨.tell (nativeReport target .call), [nativeReport target .return], ?_,
        carries_tells hk [_, _], fun hno => absurd hno Bool.false_ne_true⟩
      simp only [obey, told, hhook]
      rfl
  | execute s budget =>
    cases s with
    | declare line name v =>
      have hframe : (m.obey h (.execute (.declare line name v) budget)).1 =
          m.onFrames h (Stroke.declare (name, v)).onFrames := onFrame_eq rfl fun _ _ => rfl
      rw [hframe]
      exact ⟨.declare (name, v), [], rfl, carries_onFrames hk rfl, fun _ => ⟨rfl, rfl⟩⟩
    | assign line name v =>
      exact ⟨.assign (name, v), [], rfl, ⟨rfl, rfl, rfl, rfl, hk⟩, fun _ => ⟨rfl, rfl⟩⟩
    | call line target =>
      have hcarries : m.Carries h [.call target] m := ⟨rfl, rfl, rfl, rfl, hk⟩
      refine ⟨.call target, [], ?_, ?_, fun _ => ⟨rfl, rfl⟩⟩
      · simp only [Program.strokesOf, Program.statementStrokes, obey, execute]
        cases m.program.find? target with
        | none => rfl
        | some g =>
          cases budget with
          | zero => rfl
          | succ budget =>
            simp only [Program.strokesLeft_instructions]
            rfl
      · show m.Carries h [.call target] (m.execute h budget (.call line target)).1
        simp only [execute]
        split <;> exact hcarries

end Machine

end ScriptDebug.Script
