import ScriptDebug.Proofs.Course

/-!
# The tour of a program

The trace of a program says what its hook is told; the tour says beside it where the run stands at
that moment: which activations are under way, and how many statements of each are done.

1. `Program.tour` is the trace with the activations (`map_report_tour`); at most `deepestCall + 1`
   are under way, each of them called by the statement that the next one stands at
   (`Program.stands_tour`).
2. The course of the program makes just this tour: what it tells, and the frames that it tells it
   with (`seen_course`).
3. In a trace every call is followed by its return, and calls nest (`nested_trace`).
-/

namespace ScriptDebug.Script

/-- The variable that a statement declares. -/
def Statement.declared? : Statement → Option Variable
  | .declare _ name v => some (name, v)
  | _ => none

/-- The variables that the first statements of a function declare, in their order. -/
def Function.declared (f : Function) (n : Nat) : List Variable :=
  (f.body.take n).filterMap Statement.declared?

/-- **Activation** of a function that is under way. -/
structure Activation where
  function : Function
  /-- How many of its statements are done. -/
  done : Nat
  /-- The line it has come to. -/
  line : Int

/-- The frame of an activation. -/
def Activation.frame (a : Activation) : Frame where
  function := a.function
  locals := a.function.declared a.done
  line := a.line

/-- The activation of a function whose first statements are done. -/
def Function.after (f : Function) (n : Nat) : Activation where
  function := f
  done := n
  line := ((f.body.take n).getLast?.map Statement.line).getD f.lineDefined

/-- **Moment** of a run at which its hook is told something. -/
structure Moment where
  report : Hook.Report
  /-- How deep calls are nested. -/
  depth : Nat
  /-- The activations that are under way, the innermost first. -/
  stack : List Activation

/-- What is seen at a moment above some frames. -/
def Moment.shown (frames : List Frame) (m : Moment) : Hook.Report × List Frame :=
  (m.report, m.stack.map Activation.frame ++ frames)

/-- The moments of the call of a native function. -/
def nativeTour (target : String) (depth : Nat) (stack : List Activation) : List Moment :=
  [⟨nativeReport target .call, depth, stack⟩, ⟨nativeReport target .return, depth, stack⟩]

namespace Program

/-- The moments of statement `i` of a function. -/
def lineTour (p : Program) (f : Function) (tag : String) (depth : Nat) (outer : List Activation)
    (callee : List Activation → Function → List Moment) (s : Statement) (i : Nat) : List Moment :=
  let stack := ⟨f, i, s.line⟩ :: outer
  ⟨p.report f tag .line s.line, depth, stack⟩ ::
    match s with
    | .call _ target =>
      match p.find? target with
      | some g => callee stack g
      | none => nativeTour target depth stack
    | _ => []

/-- The moments of an activation of a function above others. -/
def activationTour (p : Program) (f : Function) (tag : String) (depth : Nat)
    (outer : List Activation) (callee : List Activation → Function → List Moment) : List Moment :=
  ⟨p.report f tag .call f.lineDefined, depth, f.after 0 :: outer⟩ ::
    f.body.zipIdx.flatMap (fun (s, i) => p.lineTour f tag depth outer callee s i) ++
    [⟨p.report f tag .return f.lastLineDefined, depth, f.after f.body.length :: outer⟩]

/-- The moments of an activation when calls may nest `budget` deep below it. -/
def tourFrom (p : Program) (f : Function) (tag : String) (depth : Nat) (outer : List Activation) :
    Nat → List Moment
  | 0 => p.activationTour f tag depth outer fun _ _ => []
  | budget + 1 => p.activationTour f tag depth outer fun stack g =>
    p.tourFrom g scriptTag (depth + 1) stack budget

/-- **Tour** of a whole run. -/
def tour (p : Program) : List Moment := p.tourFrom p.main mainTag 0 [] deepestCall

end Program

variable {p : Program} {f : Function} {tag : String} {depth : Nat} {outer : List Activation}

/-! ## The trace -/

theorem map_report_activationTour {callee : List Activation → Function → List Moment}
    {callee' : Function → List Hook.Report}
    (hcallee : ∀ stack g, (callee stack g).map (·.report) = callee' g) :
    (p.activationTour f tag depth outer callee).map (·.report) =
    p.activationTrace f tag callee' := by
  have hline : ∀ s i, (p.lineTour f tag depth outer callee s i).map (·.report) =
      p.statementTrace f tag callee' s := by
    intro s i
    cases s with
    | declare | assign => rfl
    | call line target =>
      simp only [Program.lineTour, Program.statementTrace, List.map_cons]
      cases p.find? target with
      | none => rfl
      | some g => rw [hcallee]
  have hbody : ∀ (body : List Statement) i,
      ((body.zipIdx i).flatMap fun (s, i) => p.lineTour f tag depth outer callee s i).map
      (·.report) =
        body.flatMap (p.statementTrace f tag callee') := by
    intro body
    induction body with
    | nil => intro i; rfl
    | cons s body ih =>
      intro i
      rw [List.zipIdx_cons, List.flatMap_cons, List.map_append, ih, hline, List.flatMap_cons]
  simp only [Program.activationTour, Program.activationTrace, List.map_append, List.map_cons,
    hbody, List.map_nil]

theorem map_report_tourFrom (budget : Nat) :
    (p.tourFrom f tag depth outer budget).map (·.report) = p.traceFrom f tag budget := by
  induction budget generalizing f tag depth outer with
  | zero => exact map_report_activationTour fun _ _ => rfl
  | succ budget ih => exact map_report_activationTour fun _ _ => ih

/-- **The tour goes along the trace.** -/
theorem map_report_tour (p : Program) : p.tour.map (·.report) = p.trace :=
  map_report_tourFrom deepestCall

/-! ## Where a run stands -/

/-- **Linked.** Each activation was called by the statement that the next one stands at; the
outermost one is that of the main function. -/
inductive Program.Linked (p : Program) : List Activation → Prop
  | main {a : Activation} (h : a.function = p.main) : p.Linked [a]
  | call {a caller : Activation} {callers : List Activation} {line : Int} {target : String}
      (hat : caller.function.body[caller.done]? = some (.call line target))
      (htarget : p.find? target = some a.function) (h : p.Linked (caller :: callers)) :
      p.Linked (a :: caller :: callers)

/-- **Tells.** What the hook may be told while an activation is the innermost one: the events of its
function, and those of a native function that its statement calls. -/
inductive Program.Tells (p : Program) : Activation → Hook.Report → Prop
  | call (f : Function) (tag : String) : p.Tells (f.after 0) (p.report f tag .call f.lineDefined)
  | line {f : Function} {i : Nat} {s : Statement} (tag : String) (hs : f.body[i]? = some s) :
      p.Tells ⟨f, i, s.line⟩ (p.report f tag .line s.line)
  | return (f : Function) (tag : String) :
      p.Tells (f.after f.body.length) (p.report f tag .return f.lastLineDefined)
  | native {f : Function} {i : Nat} {line : Int} {target : String} {kind : Hook.Kind}
      (hkind : kind = .call ∨ kind = .return) (hs : f.body[i]? = some (.call line target))
      (hnative : p.find? target = none) : p.Tells ⟨f, i, line⟩ (nativeReport target kind)

/-- **Stands.** A moment as it may come in a run. -/
structure Program.Stands (p : Program) (m : Moment) : Prop where
  /-- There is one activation more than calls are nested, -/
  length : m.stack.length = m.depth + 1
  depth : m.depth ≤ deepestCall
  linked : p.Linked m.stack
  /-- and the innermost one is that of the function the hook is told of,
  or of the caller of a native one. -/
  tells : ∃ a callers, m.stack = a :: callers ∧ p.Tells a m.report

theorem Program.Linked.replace {a b : Activation} (h : p.Linked (a :: outer))
    (hf : b.function = a.function) :
    p.Linked (b :: outer) := by
  cases h with
  | main h => exact .main (hf.trans h)
  | call hat htarget h => exact .call hat (htarget.trans (congrArg some hf.symm)) h

section Stands

variable {callee : List Activation → Function → List Moment}
  (hlinked : p.Linked (f.after 0 :: outer)) (hlength : outer.length = depth)
  (hdepth : depth ≤ deepestCall)

include hlinked hlength hdepth

theorem stands_of_tells {a : Activation} {r : Hook.Report} (ha : a.function = f)
    (ht : p.Tells a r) :
    p.Stands ⟨r, depth, a :: outer⟩ where
  length := by rw [List.length_cons, hlength]
  depth := hdepth
  linked := hlinked.replace ha
  tells := ⟨a, outer, rfl, ht⟩

theorem stands_lineTour {s : Statement} {i : Nat} (hs : f.body[i]? = some s)
    (hcallee : ∀ line target g, s = .call line target → p.find? target = some g →
      ∀ m ∈ callee (⟨f, i, line⟩ :: outer) g, p.Stands m) :
    ∀ m ∈ p.lineTour f tag depth outer callee s i, p.Stands m := by
  intro m hm
  rcases List.mem_cons.1 hm with rfl | hm
  · exact stands_of_tells hlinked hlength hdepth rfl (.line tag hs)
  · cases s with
    | declare | assign => cases hm
    | call line target =>
      cases hg : p.find? target with
      | some g =>
        simp only [hg] at hm
        exact hcallee line target g rfl hg m hm
      | none =>
        simp only [hg, nativeTour, List.mem_cons, List.not_mem_nil, or_false] at hm
        rcases hm with rfl | rfl
        · exact stands_of_tells hlinked hlength hdepth rfl (.native (.inl rfl) hs hg)
        · exact stands_of_tells hlinked hlength hdepth rfl (.native (.inr rfl) hs hg)

theorem stands_activationTour
    (hcallee : ∀ i line target g, f.body[i]? = some (.call line target) → p.find? target = some g →
      ∀ m ∈ callee (⟨f, i, line⟩ :: outer) g, p.Stands m) :
    ∀ m ∈ p.activationTour f tag depth outer callee, p.Stands m := by
  intro m hm
  simp only [Program.activationTour, List.cons_append, List.mem_cons, List.mem_append,
    List.not_mem_nil, or_false, List.mem_flatMap] at hm
  rcases hm with rfl | ⟨⟨s, i⟩, hmem, hm⟩ | rfl
  · exact stands_of_tells hlinked hlength hdepth rfl (.call f tag)
  · have hs : f.body[i]? = some s := List.mk_mem_zipIdx_iff_getElem?.1 hmem
    exact stands_lineTour hlinked hlength hdepth hs
      (fun line target g hline => hcallee i line target g (hline ▸ hs)) m hm
  · exact stands_of_tells hlinked hlength hdepth rfl (.return f tag)

end Stands

theorem stands_tourFrom (hlinked : p.Linked (f.after 0 :: outer)) (hlength : outer.length = depth)
    (budget : Nat) (hdepth : depth + budget ≤ deepestCall) :
    ∀ m ∈ p.tourFrom f tag depth outer budget, p.Stands m := by
  induction budget generalizing f tag depth outer with
  | zero => exact stands_activationTour hlinked hlength hdepth fun _ _ _ _ _ _ m hm => nomatch hm
  | succ budget ih =>
    refine stands_activationTour hlinked hlength (by omega) fun i line target g hs hg => ?_
    have hcaller : p.Linked (⟨f, i, line⟩ :: outer) := hlinked.replace rfl
    exact ih (.call hs hg hcaller) (by rw [List.length_cons, hlength]) (by omega)

/-- **Where a run stands** at each moment of its tour. -/
theorem Program.stands_tour (p : Program) : ∀ m ∈ p.tour, p.Stands m :=
  stands_tourFrom (.main rfl) rfl deepestCall (Nat.le_of_eq (Nat.zero_add deepestCall))

/-- **At a line** the innermost activation stands at a statement of that line. -/
theorem Program.Tells.line_statement {a : Activation} {r : Hook.Report} (ht : p.Tells a r)
    (hline : r.code = Hook.Kind.line.code) :
    ∃ s tag, a.function.body[a.done]? = some s ∧ r = p.report a.function tag .line s.line := by
  cases ht with
  | call f tag | «return» f tag => exact absurd hline (by simp [report, Hook.Kind.code])
  | line tag hs => exact ⟨_, tag, hs, rfl⟩
  | native hkind hs hnative =>
    rcases hkind with rfl | rfl <;> exact absurd hline (by simp [nativeReport, Hook.Kind.code])

/-! ## The course makes the tour -/

theorem Function.declared_succ {i : Nat} {s : Statement} (hs : f.body[i]? = some s) :
    f.declared (i + 1) = f.declared i ++ s.declared?.toList := by
  unfold Function.declared
  rw [List.take_add_one, hs, List.filterMap_append]
  cases hd : s.declared? <;> simp [hd]

theorem Function.line_after_succ {i : Nat} {s : Statement} (hs : f.body[i]? = some s) :
    (f.after (i + 1)).line = s.line := by
  unfold Function.after
  rw [List.take_add_one, hs]
  simp

theorem Function.frame_after_succ {i : Nat} {s : Statement} (hs : f.body[i]? = some s) :
    (f.after (i + 1)).frame =
    { function := f, locals := f.declared i ++ s.declared?.toList, line := s.line } := by
  unfold Activation.frame
  rw [line_after_succ hs]
  show Frame.mk f (f.declared (i + 1)) s.line = _
  rw [declared_succ hs]

section Seen

variable (p f tag depth outer) {callee : Function → List Stroke}
  {callee' : List Activation → Function → List Moment} {base : List Frame}
  (hbalance : ∀ g frames, framesBehind frames (callee g) = frames)
  (hcallee : ∀ stack g, seen (stack.map Activation.frame ++ base) (callee g) =
    (callee' stack g).map (Moment.shown base))

include hbalance hcallee

/-- A line of a function makes its moments, and leaves the frame of the activation behind it. -/
theorem seen_lineStrokes {i : Nat} {s : Statement} (hs : f.body[i]? = some s) :
    let frames := outer.map Activation.frame ++ base
    seen ((f.after i).frame :: frames) (p.lineStrokes f tag callee s) =
        (p.lineTour f tag depth outer callee' s i).map (Moment.shown base) ∧
      framesBehind ((f.after i).frame :: frames) (p.lineStrokes f tag callee s) =
        (f.after (i + 1)).frame :: frames := by
  intro frames
  rw [Function.frame_after_succ hs]
  have hreached : ({ (f.after i).frame with line := s.line } : Frame) =
      (Activation.mk f i s.line).frame := rfl
  cases s with
  | declare line name v => exact ⟨rfl, rfl⟩
  | assign line name v =>
    refine ⟨rfl, ?_⟩
    simp only [Statement.declared?, Option.toList_none, List.append_nil]
    rfl
  | call line target =>
    simp only [Statement.declared?, Option.toList_none, List.append_nil]
    simp only [Program.lineStrokes, Program.statementStrokes, Program.lineTour, seen,
      framesBehind_cons, Stroke.onFrames, hreached, List.map_cons]
    cases p.find? target with
    | none => exact ⟨rfl, rfl⟩
    | some g =>
      have hg := hcallee (⟨f, i, line⟩ :: outer) g
      exact ⟨congrArg (_ :: ·) hg, hbalance g _⟩

theorem seen_lines (i : Nat) (body : List Statement) (hbody : f.body.drop i = body) :
    let frames := outer.map Activation.frame ++ base
    seen ((f.after i).frame :: frames) (body.flatMap (p.lineStrokes f tag callee)) =
        ((body.zipIdx i).flatMap fun (s, i) => p.lineTour f tag depth outer callee' s i).map
        (Moment.shown base) ∧
      framesBehind ((f.after i).frame :: frames) (body.flatMap (p.lineStrokes f tag callee)) =
        (f.after (i + body.length)).frame :: frames := by
  induction body generalizing i with
  | nil => exact ⟨rfl, rfl⟩
  | cons s body ih =>
    have hs : f.body[i]? = some s := by
      rw [← List.head?_drop, hbody]
      rfl
    have htail : f.body.drop (i + 1) = body := by
      rw [← List.tail_drop, hbody]
      rfl
    obtain ⟨hseen, hframes⟩ := seen_lineStrokes p f tag depth outer hbalance hcallee hs
    obtain ⟨hseen', hframes'⟩ := ih (i + 1) htail
    constructor
    · rw [List.flatMap_cons, seen_append, hseen, hframes, hseen', List.zipIdx_cons,
        List.flatMap_cons, List.map_append]
    · rw [List.flatMap_cons, framesBehind_append, hframes, hframes', List.length_cons]
      congr 3
      omega

theorem seen_activationStrokes :
    seen (outer.map Activation.frame ++ base) (p.activationStrokes f tag callee) =
      (p.activationTour f tag depth outer callee').map (Moment.shown base) := by
  obtain ⟨hseen, hframes⟩ := seen_lines p f tag depth outer hbalance hcallee 0 f.body rfl
  rw [Nat.zero_add] at hframes
  simp only [Program.activationStrokes, Program.activationTour, List.cons_append,
    List.nil_append, seen, Stroke.onFrames, List.map_cons, List.map_append, seen_append]
  have hfirst : ({ function := f, line := f.lineDefined } : Frame) = (f.after 0).frame := rfl
  rw [hfirst, hseen, hframes]
  rfl

end Seen

theorem seen_strokesFrom (p : Program) (f : Function) (tag : String) (depth : Nat)
    (outer : List Activation) (base : List Frame) (budget : Nat) :
    seen (outer.map Activation.frame ++ base) (p.strokesFrom f tag budget) =
      (p.tourFrom f tag depth outer budget).map (Moment.shown base) := by
  induction budget generalizing f tag depth outer with
  | zero => exact seen_activationStrokes p f tag depth outer (fun _ _ => rfl) fun _ _ => rfl
  | succ budget ih =>
    exact seen_activationStrokes p f tag depth outer (fun _ _ => framesBehind_strokesFrom budget)
      fun stack g => ih g scriptTag (depth + 1) stack

/-- **The course makes the tour,** above the frames that were there before. -/
theorem seen_course (p : Program) (base : List Frame) :
    seen base p.course = p.tour.map (Moment.shown base) :=
  seen_strokesFrom p p.main mainTag 0 [] base deepestCall

/-! ## Calls nest -/

/-- Whether two reports are about the same function. -/
def SameFunction (r r' : Hook.Report) : Prop := { r with code := r'.code, line := r'.line } = r'

/-- **Nested.** Every call is followed by its return, with nested reports between them. -/
inductive Nested : List Hook.Report → Prop
  | nil : Nested []
  | line {r : Hook.Report} {rest : List Hook.Report} (hr : r.code = Hook.Kind.line.code)
      (h : Nested rest) :
      Nested (r :: rest)
  | call {c r : Hook.Report} {inner rest : List Hook.Report} (hc : c.code = Hook.Kind.call.code)
      (hr : r.code = Hook.Kind.return.code) (hsame : SameFunction c r) (hinner : Nested inner)
      (hrest : Nested rest) : Nested (c :: (inner ++ r :: rest))

theorem Nested.append {l r : List Hook.Report} (hl : Nested l) (hr : Nested r) :
    Nested (l ++ r) := by
  induction hl with
  | nil => exact hr
  | line hline _ ih => exact .line hline ih
  | call hc hret hsame hinner _ _ ih =>
    rw [List.cons_append, List.append_assoc]
    exact .call hc hret hsame hinner ih

theorem nested_activationTrace {callee : Function → List Hook.Report}
    (hcallee : ∀ g, Nested (callee g)) :
    Nested (p.activationTrace f tag callee) := by
  have hline : ∀ s, Nested (p.statementTrace f tag callee s) := by
    intro s
    refine .line rfl ?_
    cases s with
    | declare | assign => exact .nil
    | call line target =>
      dsimp only
      cases p.find? target with
      | some g => exact hcallee g
      | none =>
        exact .call (c := nativeReport target .call)
          (r := nativeReport target .return) rfl rfl rfl .nil .nil
  have hbody : Nested (f.body.flatMap (p.statementTrace f tag callee)) := by
    induction f.body with
    | nil => exact .nil
    | cons s body ih =>
      rw [List.flatMap_cons]
      exact (hline s).append ih
  exact .call rfl rfl rfl hbody .nil

theorem nested_traceFrom (budget : Nat) : Nested (p.traceFrom f tag budget) := by
  induction budget generalizing f tag with
  | zero => exact nested_activationTrace fun _ => .nil
  | succ budget ih => exact nested_activationTrace fun _ => ih

/-- **Calls nest** in the trace of a program. -/
theorem nested_trace (p : Program) : Nested p.trace := nested_traceFrom deepestCall

end ScriptDebug.Script
