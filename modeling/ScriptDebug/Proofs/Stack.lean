import Mathlib.Algebra.BigOperators.Group.List.Basic
import Mathlib.Algebra.GroupWithZero.Nat
import ScriptDebug.Proofs.Sparing

/-!
# The frames of an execution

Nothing keeps two threads from running the same execution; their frames then pile up on one stack.
Still every frame has a run that takes it off.

1. `opens` counts the frames that instructions take off beyond those that they put on. An
   instruction that is obeyed changes the frames and this count alike (`obey_opens`).
2. So there are as many frames as all the runs that are under way take off (`Stacked.step`,
   `Initial.stacked`). An execution that nobody runs has none (`frames_of_idle`).
-/

namespace ScriptDebug

namespace Script

/-- How many frames instructions take off beyond those that they put on. -/
def opens : List Instruction → Nat
  | [] => 0
  | .enter _ :: rest => opens rest - 1
  | .leave :: rest => opens rest + 1
  | _ :: rest => opens rest

/-- **Nests.** Every frame that is put on is taken off. -/
def Nests : List Instruction → Prop
  | [] => True
  | .enter _ :: rest => 0 < opens rest ∧ Nests rest
  | _ :: rest => Nests rest

section Opens

variable {l : List Instruction} (rest : List Instruction)

/-- Whether an instruction leaves the number of frames as it is. -/
def Instruction.isLevel : Instruction → Bool
  | .enter _ | .leave => false
  | _ => true

theorem opens_level (hl : ∀ i ∈ l, i.isLevel = true) :
    opens (l ++ rest) = opens rest ∧ (Nests rest → Nests (l ++ rest)) := by
  induction l with
  | nil => exact ⟨rfl, id⟩
  | cons i l ih =>
    obtain ⟨hopens, hnests⟩ := ih fun j hj => hl j (List.mem_cons_of_mem i hj)
    have hi := hl i (List.mem_cons_self ..)
    cases i with
    | enter | leave => cases hi
    | _ => exact ⟨hopens, hnests⟩

theorem opens_instructions (f : Function) (tag : String) (budget : Nat) :
    opens (f.instructions tag budget ++ rest) = opens rest ∧
      (Nests rest → Nests (f.instructions tag budget ++ rest)) := by
  let inner :=
    .tell f tag .call f.lineDefined :: f.body.flatMap (Statement.instructions f tag budget) ++
    [.tell f tag .return f.lastLineDefined]
  have hsplit : f.instructions tag budget ++ rest = .enter f :: (inner ++ .leave :: rest) := by
    simp [Function.instructions, inner]
  have hinner : ∀ i ∈ inner, i.isLevel = true := by
    intro i hi
    simp only [inner, List.cons_append, List.mem_cons, List.mem_append, List.mem_flatMap,
      List.not_mem_nil, or_false] at hi
    rcases hi with rfl | ⟨s, -, hi⟩ | rfl
    · rfl
    · simp only [Statement.instructions, List.mem_cons, List.not_mem_nil, or_false] at hi
      rcases hi with rfl | rfl | rfl <;> rfl
    · rfl
  obtain ⟨hopens, hnests⟩ := opens_level (.leave :: rest) hinner
  have hleave : opens (.leave :: rest) = opens rest + 1 := rfl
  rw [hsplit]
  refine ⟨?_, fun hrest => ⟨?_, hnests hrest⟩⟩
  · show opens (inner ++ .leave :: rest) - 1 = opens rest
    omega
  · omega

theorem opens_agenda (m : Machine) : opens m.agenda = 0 ∧ Nests m.agenda := by
  obtain ⟨hopens, hnests⟩ := opens_instructions [] m.program.main mainTag deepestCall
  rw [List.append_nil] at hopens hnests
  exact ⟨hopens, hnests trivial⟩

end Opens

namespace Machine

variable {m : Machine} {h : Handle}

/-- **An instruction that is obeyed** changes the frames as it changes what is left to take off. -/
theorem obey_opens {i : Instruction} {more : List Instruction} (hk : m.knows h = true)
    (hn : Nests (i :: more)) (hframes : opens (i :: more) ≤ (m.frames h).length) :
    ((m.obey h i).1.frames h).length + opens (i :: more) =
        (m.frames h).length + opens ((m.obey h i).2.2 ++ more) ∧
      Nests ((m.obey h i).2.2 ++ more) := by
  have honFrame : ∀ f : Frame → Frame, ((m.onFrame h f).frames h).length = (m.frames h).length := by
    intro f
    rw [onFrame, frames_onFrames hk]
    cases m.frames h <;> rfl
  cases i with
  | enter f =>
    obtain ⟨hpos, hmore⟩ := hn
    refine ⟨?_, hmore⟩
    show ((m.onFrames h _).frames h).length + (opens more - 1) = (m.frames h).length + opens more
    rw [frames_onFrames hk, List.length_cons]
    omega
  | leave =>
    refine ⟨?_, hn⟩
    have hopens : opens (.leave :: more) = opens more + 1 := rfl
    show ((m.onFrames h List.tail).frames h).length + (opens more + 1) =
        (m.frames h).length + opens more
    rw [frames_onFrames hk, List.length_tail]
    omega
  | reach line => exact ⟨congrArg (· + opens more) (honFrame _), hn⟩
  | tell | callNative | returnNative =>
    simp only [obey, told]
    split <;> exact ⟨rfl, hn⟩
  | execute s budget =>
    cases s with
    | declare => exact ⟨congrArg (· + opens more) (honFrame _), hn⟩
    | assign => exact ⟨rfl, hn⟩
    | call line target =>
      simp only [obey, execute]
      cases m.program.find? target with
      | none => exact ⟨rfl, hn⟩
      | some g =>
        cases budget with
        | zero => exact ⟨rfl, hn⟩
        | succ budget =>
          obtain ⟨hopens, hnests⟩ := opens_instructions more g scriptTag budget
          exact ⟨congrArg ((m.frames h).length + ·) hopens.symm, hnests hn⟩

end Machine

/-- How many frames code takes off an execution. -/
def Code.opens (h : Handle) : Code → Nat
  | .agenda x todo => if x = h then Script.opens todo else 0
  | _ => 0

/-- **Nested.** Code that runs an execution there is, and takes off every frame that it puts on. -/
def Code.Nested (m : Machine) : Code → Prop
  | .agenda x todo => m.knows x = true ∧ Nests todo
  | _ => True

end Script

variable {logic : Logic} {sink : Sink}

/-- How many frames an action takes off an execution. -/
def Action.opens (h : Handle) : Action ⟨Script.host, logic, sink⟩ → Nat
  | .host code => Script.Code.opens h code
  | _ => 0

/-- Whether an action only takes off frames that it puts on. -/
def Action.Nested (m : Script.Machine) : Action ⟨Script.host, logic, sink⟩ → Prop
  | .host code => Script.Code.Nested m code
  | _ => True

theorem Action.Nested.mono {m m' : Script.Machine} {a : Action ⟨Script.host, logic, sink⟩}
    (h : a.Nested m) (hk : ∀ x, m.knows x = true → m'.knows x = true) : a.Nested m' := by
  cases a with
  | host code =>
    cases code with
    | agenda x todo => exact ⟨hk x h.1, h.2⟩
    | _ => trivial
  | _ => trivial

/-- Whether an action is a run that is under way. -/
def Action.isUnderWay : Action ⟨Script.host, logic, sink⟩ → Bool
  | .host code => (Script.Code.execution? code).isSome
  | _ => false

namespace Debugger

variable {d e : Debugger ⟨Script.host, logic, sink⟩} {σ : Schedule} {t u : ThreadId} {h : Handle}
  {last ans : Answer} {a b : Action ⟨Script.host, logic, sink⟩}
  {as rest todo : List (Action ⟨Script.host, logic, sink⟩)} {i k n r : Nat}

/-- How many frames a list of actions takes off an execution. -/
def opensAll (h : Handle) (as : List (Action ⟨Script.host, logic, sink⟩)) : Nat :=
  (as.map (·.opens h)).sum

theorem opensAll_append (as bs : List (Action ⟨Script.host, logic, sink⟩)) :
    opensAll h (as ++ bs) = opensAll h as + opensAll h bs := by
  rw [opensAll, List.map_append, List.sum_append]
  rfl

theorem opens_of_not_underWay (ha : a.isUnderWay = false) (h : Handle) : a.opens h = 0 := by
  cases a with
  | host code =>
    cases code with
    | agenda => cases ha
    | _ => rfl
  | _ => rfl

theorem nested_of_not_underWay (ha : a.isUnderWay = false) (m : Script.Machine) : a.Nested m := by
  cases a with
  | host code =>
    cases code with
    | agenda => cases ha
    | _ => trivial
  | _ => trivial

theorem opensAll_eq_zero (hl : ∀ b ∈ as, b.isUnderWay = false) : opensAll h as = 0 := by
  refine List.sum_eq_zero fun n hn => ?_
  obtain ⟨b, hb, rfl⟩ := List.mem_map.1 hn
  exact opens_of_not_underWay (hl b hb) h

/-- An action that does not run an execution takes off none of its frames. -/
theorem opens_of_execution? (hne : a.execution? ≠ some h) : a.opens h = 0 := by
  cases a with
  | host code =>
    cases code with
    | agenda x todo => exact if_neg fun hx => hne (congrArg some hx)
    | _ => rfl
  | _ => rfl

theorem not_underWay_of_look {op : Operation}
    (hb : b ∈ (op.look : List (Action ⟨Script.host, logic, sink⟩))) :
    b.isUnderWay = false := by
  cases op with
  | evaluate | load =>
    simp only [Operation.look, List.mem_cons, List.not_mem_nil, or_false] at hb
    rcases hb with rfl | rfl <;> rfl
  | listVariables | fetchVariable =>
    obtain rfl := List.mem_singleton.1 hb
    rfl
  | _ => cases hb

theorem not_underWay_of_act (hact : d.act t last a = some (e, todo, ans))
    (hrun : a.execution? = none) :
    ∀ b ∈ todo, b.isUnderWay = false := by
  have hleads := act_leads hact
  intro b hb
  cases a with
  | begin op =>
    cases op with
    | run x => cases hrun
    | _ => grind [Leads, OperationLeads, Action.dispatch, Action.isUnderWay]
  | host code =>
    cases code with
    | agenda => cases hrun
    | expression x text =>
      cases hact
      cases hb
    | file x path =>
      cases hact
      cases hb
  | inspect c op =>
    rcases hleads with rfl | rfl
    · cases hb
    · exact not_underWay_of_look hb
  | resumeEach cs n => cases cs <;> grind [Leads, Action.isUnderWay]
  | describe cs done => cases cs <;> grind [Leads, Action.isUnderWay]
  | _ => grind [Leads, Action.dispatch, Action.isUnderWay]

theorem act_opens_of_idle (hact : d.act t last a = some (e, todo, ans))
    (hrun : a.execution? = none) :
    (∀ h, (Script.Machine.frames e.host h).length + a.opens h =
        (Script.Machine.frames d.host h).length + opensAll h todo) ∧
        ∀ b ∈ todo, b.Nested e.host := by
  have hlevel := not_underWay_of_act hact hrun
  have ha : a.isUnderWay = false := by
    cases a with
    | host code =>
      exact Bool.eq_false_iff.2 fun hsome => absurd hrun (Option.isSome_iff_ne_none.1 hsome)
    | _ => rfl
  refine ⟨fun h => ?_, fun b hb => nested_of_not_underWay (hlevel b hb) _⟩
  have hspares : Script.Machine.Spares d.host h e.host := act_spares hact (by rw [hrun]; nofun)
  rw [hspares.frames, opens_of_not_underWay ha, opensAll_eq_zero hlevel]

theorem act_opens_of_run {x : Handle}
    (hact : d.act t last (.begin (.run x)) = some (e, todo, ans)) :
    (∀ h, (Script.Machine.frames e.host h).length =
        (Script.Machine.frames d.host h).length + opensAll h todo) ∧
        ∀ b ∈ todo, b.Nested e.host := by
  cases hk : Script.Machine.knows d.host x with
  | false =>
    cases hact.symm.trans (act_run_unknown hk)
    exact ⟨fun h => rfl, fun b hb => absurd hb List.not_mem_nil⟩
  | true =>
    cases hact.symm.trans (act_run hk)
    obtain ⟨hopens, hnests⟩ := Script.opens_agenda d.host
    refine ⟨fun h => ?_, fun b hb => ?_⟩
    · show _ = _ + ((if x = h then Script.opens (Script.Machine.agenda d.host) else 0) + 0)
      rw [hopens, ite_self]
      rfl
    · simp only [List.mem_cons, List.not_mem_nil, or_false] at hb
      rcases hb with rfl | rfl
      · exact ⟨hk, hnests⟩
      · trivial

theorem not_underWay_of_raised {r : Option Hook.Report} {x : Handle}
    {b : Action ⟨Script.host, logic, sink⟩}
    (hb : b ∈ (r.map fun r => Action.begin (.hook x r)).toList) : b.isUnderWay = false := by
  cases r with
  | none => cases hb
  | some r =>
    obtain rfl := List.mem_singleton.1 hb
    rfl

/-- An instruction of a run adds and takes off just the frames that it leaves more or
fewer of to take off. -/
theorem act_opens_of_instruction {x : Handle} {i : Script.Instruction}
    {more : List Script.Instruction}
    (hact : d.act t last (.host (.agenda x (i :: more))) = some (e, todo, ans))
    (ha : Action.Nested d.host (.host (.agenda x (i :: more)) : Action ⟨Script.host, logic, sink⟩))
    (hle : Script.opens (i :: more) ≤ (Script.Machine.frames d.host x).length) :
    (∀ h, (Script.Machine.frames e.host h).length +
          (if x = h then Script.opens (i :: more) else 0) =
        (Script.Machine.frames d.host h).length + opensAll h todo) ∧
      ∀ b ∈ todo, b.Nested e.host := by
  cases hact.symm.trans (act_agenda i more)
  obtain ⟨hk, hn⟩ := ha
  obtain ⟨s, silent, -, hcarries, -⟩ := Script.Machine.obey_strokes hk i
  obtain ⟨hcount, hnests⟩ := Script.Machine.obey_opens hk hn hle
  refine ⟨fun h => ?_, fun b hb => ?_⟩
  · rw [opensAll_append, opensAll_eq_zero fun _ => not_underWay_of_raised, Nat.zero_add]
    show _ + (if x = h then Script.opens (i :: more) else 0) =
      _ + ((if x = h then Script.opens _ else 0) + 0)
    by_cases hx : x = h
    · subst hx
      rw [if_pos rfl, if_pos rfl]
      exact hcount
    · rw [if_neg hx, if_neg hx]
      exact congrArg List.length (Script.Machine.spares_obey hx i).frames
  · rcases List.mem_append.1 hb with hb | hb
    · exact nested_of_not_underWay (not_underWay_of_raised hb) _
    · obtain rfl := List.mem_singleton.1 hb
      exact ⟨hcarries.knows, hnests⟩

/-- **An action changes the frames** as it changes what is left to take off. -/
theorem act_opens (hact : d.act t last a = some (e, todo, ans)) (ha : a.Nested d.host)
    (hframes : ∀ h, a.opens h ≤ (Script.Machine.frames d.host h).length) :
    (∀ h, (Script.Machine.frames e.host h).length + a.opens h =
        (Script.Machine.frames d.host h).length + opensAll h todo) ∧
        ∀ b ∈ todo, b.Nested e.host := by
  by_cases hrun : a.execution? = none
  · exact act_opens_of_idle hact hrun
  cases a with
  | begin op =>
    cases op with
    | run x => exact act_opens_of_run hact
    | _ => exact absurd rfl hrun
  | host code =>
    cases code with
    | agenda x l =>
      cases l with
      | nil =>
        cases hact
        refine ⟨fun h => ?_, fun b hb => absurd hb List.not_mem_nil⟩
        show _ + (if x = h then 0 else 0) = _
        rw [ite_self]
        rfl
      | cons i more =>
        refine act_opens_of_instruction hact ha ?_
        have hle := hframes x
        rwa [show Action.opens x (.host (.agenda x (i :: more))) =
          Script.opens (i :: more) from if_pos rfl] at hle
    | _ => exact absurd rfl hrun
  | _ => exact absurd rfl hrun

/-! ## All runs together -/

/-- How many frames all threads together take off an execution. -/
def opened (d : Debugger ⟨Script.host, logic, sink⟩) (h : Handle) : Nat :=
  (d.threads.map fun x => opensAll h x.agenda).sum

/-- **Stacked.** There are as many frames as all runs together take off. -/
structure Stacked (d : Debugger ⟨Script.host, logic, sink⟩) : Prop where
  frames : ∀ h, (Script.Machine.frames d.host h).length = d.opened h
  nested : ∀ t, ∀ a ∈ (d.thread t).agenda, a.Nested d.host

theorem opened_setThread (ht : t < d.threads.length) (x : Thread ⟨Script.host, logic, sink⟩) :
    (d.setThread t x).opened h + opensAll h (d.thread t).agenda =
    d.opened h + opensAll h x.agenda := by
  let l := d.threads.map fun x => opensAll h x.agenda
  have hl : t < l.length := by rw [List.length_map]; exact ht
  have hset : (d.setThread t x).opened h = (l.set t (opensAll h x.agenda)).sum := by
    rw [opened, setThread, List.map_set]
  have hsame : d.opened h = (l.set t (opensAll h (d.thread t).agenda)).sum := by
    have hget : l[t] = opensAll h (d.thread t).agenda := by
      simp [l, thread, List.getElem?_eq_getElem ht]
    rw [← hget, List.set_getElem_self]
    rfl
  rw [hset, hsame, List.sum_set, List.sum_set, if_pos hl, if_pos hl]
  omega

theorem opensAll_le (h : Handle) : opensAll h (d.thread t).agenda ≤ d.opened h := by
  by_cases hnil : (d.thread t).agenda = []
  · rw [hnil]
    exact Nat.zero_le _
  · have hset := opened_setThread (h := h) (lt_length_of_agenda hnil) {}
    have hzero : opensAll h ({} : Thread ⟨Script.host, logic, sink⟩).agenda = 0 := rfl
    omega

theorem opened_eq_zero (hnone : ∀ t, ∀ a ∈ (d.thread t).agenda, a.opens h = 0) :
    d.opened h = 0 := by
  refine List.sum_eq_zero fun n hn => ?_
  obtain ⟨x, hx, rfl⟩ := List.mem_map.1 hn
  obtain ⟨t, ht⟩ := List.getElem?_of_mem hx
  have hthread : d.thread t = x := by rw [thread, ht]; rfl
  refine List.sum_eq_zero fun m hm => ?_
  obtain ⟨a, ha, rfl⟩ := List.mem_map.1 hm
  exact hnone t a (hthread ▸ ha)

theorem Stacked.step {d' : Debugger ⟨Script.host, logic, sink⟩} (hd : d.Stacked)
    (hs : d.step t = some d') :
    d'.Stacked := by
  obtain ⟨a, rest, e, todo, ans, hag, hact, rfl, hself, hne⟩ := step_cases hs
  have hthreads : e.threads = d.threads := act_threads hact
  have ht : t < e.threads.length := by
    rw [hthreads]
    exact lt_length_of_agenda (by rw [hag]; exact List.cons_ne_nil a rest)
  have hthread : e.thread t = d.thread t := by
    unfold thread
    rw [hthreads]
  have hbefore : ∀ h, opensAll h (e.thread t).agenda = a.opens h + opensAll h rest := by
    intro h
    rw [hthread, hag]
    rfl
  have hopened : ∀ h, e.opened h = d.opened h := by
    intro h
    unfold opened
    rw [hthreads]
  have hframes : ∀ h, a.opens h ≤ (Script.Machine.frames d.host h).length := by
    intro h
    have hle := opensAll_le (d := e) (t := t) h
    rw [hbefore, hopened, ← hd.frames] at hle
    omega
  have ha : ∀ b ∈ a :: rest, b.Nested d.host := hag ▸ hd.nested t
  obtain ⟨hcount, htodo⟩ := act_opens hact (ha a (List.mem_cons_self ..)) hframes
  constructor
  case frames =>
    intro h
    have hset := opened_setThread (h := h) ht ⟨todo ++ rest, ans⟩
    rw [hbefore, hopened, ← hd.frames, opensAll_append] at hset
    have hc : _ + a.opens h = _ + opensAll h todo := hcount h
    show (Script.Machine.frames e.host h).length = _
    omega
  case nested =>
    have hknows : ∀ x, Script.Machine.knows d.host x = true →
        Script.Machine.knows e.host x = true :=
      fun x => act_knows hact
    intro u b hb
    by_cases hut : u = t
    · subst hut
      rw [hself] at hb
      rcases List.mem_append.1 hb with hb | hb
      · exact htodo b hb
      · exact (ha b (List.mem_cons_of_mem a hb)).mono hknows
    · rw [hne u hut] at hb
      exact (hd.nested u b hb).mono hknows

/-- **All runs together.** At every instant there are as many frames of an execution as the runs
that are under way take off. -/
theorem Initial.stacked (hd : d.Initial) (hfresh : ∀ h, Script.Machine.frames d.host h = [])
    (σ : Schedule) (n : Nat) :
    (d.instant σ n).Stacked := by
  refine instant_invariant (P := Stacked) ⟨fun h => ?_, fun t a ha => ?_⟩
    (fun n t d' hn hs => hn.step hs) (fun n t op _ hn hid ht => ⟨fun h => ?_, fun u b hb => ?_⟩)
    (fun n t c x hn hx => ⟨hn.frames, hn.nested⟩) n
  · rw [hfresh, opened_eq_zero fun t a ha => ?_]
    · rfl
    · rw [hd.idle t] at ha
      cases ha
  · rw [hd.idle t] at ha
    cases ha
  · have hset := opened_setThread (h := h) ht ⟨[.begin op], .none⟩
    rw [hid] at hset
    exact (hn.frames h).trans hset.symm
  · rcases agenda_call (d.instant σ n) t u op with hsame | ⟨-, hcalled⟩
    · exact hn.nested u b (hsame ▸ hb)
    · rw [hcalled] at hb
      obtain rfl := List.mem_singleton.1 hb
      trivial

/-- **An execution that nobody runs** has no frames. -/
theorem frames_of_idle (hd : d.Stacked) (hidle : ∀ t, ∀ a ∈ (d.thread t).agenda, a.opens h = 0) :
    Script.Machine.frames d.host h = [] := by
  refine List.eq_nil_of_length_eq_zero ?_
  rw [hd.frames, opened_eq_zero hidle]

end Debugger

end ScriptDebug
