import Mathlib.Data.Nat.Find
import ScriptDebug.Proofs.Running
import ScriptDebug.Rehearsal.Logic
import ScriptDebug.Rehearsal.Sink

/-!
# A run comes to its end

A run whose hook is installed throughout raises the trace of its program, and leaves the stack as it
was.

1. Each instruction makes at least one of the strokes that are left, so a run to which the hook
   always returns comes back (`Observed.comes_back`): otherwise it would make strokes for ever.
2. What it has raised by then is what the course of its program shows (`seen_course`), each event
   with the activations under way at that moment as the innermost frames.
-/

namespace ScriptDebug

namespace Debugger

variable {logic : Logic} {sink : Sink} {d : Debugger ⟨Script.host, logic, sink⟩} {σ : Schedule}
  {t : ThreadId} {h : Handle} {rest : List (Action ⟨Script.host, logic, sink⟩)} {k n : Nat}

/-- **Observed.** A run whose hook is installed throughout, with no other run of the same execution,
on a thread that always gets its turn, and to which every call of the hook returns. -/
structure Observed (d : Debugger ⟨Script.host, logic, sink⟩) (σ : Schedule)
    (t : ThreadId) (h : Handle) (rest : List (Action ⟨Script.host, logic, sink⟩))
    (k : Nat) : Prop where
  starts : d.Starts σ t h rest k
  fair : ∀ n, ∃ m, n ≤ m ∧ σ m = .step t
  hooked : ∀ n, d.Pending σ t rest k n → Script.Machine.isHooked (d.instant σ n).host h = true
  only : ∀ n, d.Pending σ t rest k n → (d.instant σ n).OnlyRun (· == h) t
  returns : ∀ n r more, d.Pending σ t rest k n → σ n = .step t →
    ((d.instant σ n).thread t).agenda = .begin (.hook h r) :: more →
    ∃ m, d.Completes σ t (.hook h r) more n m

theorem Starts.pending (hs : d.Starts σ t h rest k)
    (hpending : ∀ i, k < i → i ≤ n → ((d.instant σ i).thread t).agenda ≠ rest) (hkn : k ≤ n) :
    d.Pending σ t rest k n := by
  refine ⟨hkn, fun i hki hin => ?_⟩
  rcases Nat.lt_or_eq_of_le hki with hlt | rfl
  · exact hpending i hlt hin
  · rw [hs.agenda]
    exact List.cons_ne_self _ _

theorem Observed.runs (ho : d.Observed σ t h rest k) (hkn : k < n)
    (hpending : ∀ i, k < i → i < n → ((d.instant σ i).thread t).agenda ≠ rest) :
    ∃ done left, d.Runs σ t h rest k n done left :=
  ho.starts.runs hkn hpending fun i hki hin => ho.only i
    (ho.starts.pending (fun j hkj hji => hpending j hkj (Nat.lt_of_le_of_lt hji hin))
      (Nat.le_of_lt hki))

theorem Does.fewer {as : List (Action ⟨Script.host, logic, sink⟩)} {i : Script.Instruction}
    {more : List Script.Instruction} (hk : Script.Machine.knows (d.instant σ n).host h = true)
    (hd : d.Does σ n t (.host (.agenda h (i :: more))) as) :
    ∃ todo, (Script.Program.strokesLeft (d.instant σ n).host.program todo).length <
        (Script.Program.strokesLeft (d.instant σ n).host.program (i :: more)).length ∧
      (((d.instant σ (n + 1)).thread t).agenda = .host (.agenda h todo) :: as ∨
        ∃ r, ((d.instant σ (n + 1)).thread t).agenda = .begin (.hook h r) ::
        .host (.agenda h todo) :: as) := by
  obtain ⟨-, hthread⟩ := hd.obeys
  obtain ⟨s, silent, hof, -⟩ := Script.Machine.obey_strokes hk i
  refine ⟨(Script.Machine.obey (d.instant σ n).host h i).2.2 ++ more, ?_, ?_⟩
  · have hleft : Script.Program.strokesLeft (d.instant σ n).host.program (i :: more) =
        Script.Program.strokesOf (d.instant σ n).host.program i ++
          Script.Program.strokesLeft (d.instant σ n).host.program more := rfl
    rw [hleft, hof, Script.Program.strokesLeft_append]
    simp only [List.length_append, List.length_cons]
    omega
  · rw [hthread]
    cases (Script.Machine.obey (d.instant σ n).host h i).2.1 with
    | none => exact .inl rfl
    | some r => exact .inr ⟨r, rfl⟩

/-- A thread that always gets its turn comes to what stands behind an action that leaves nothing. -/
theorem exists_behind {S : Setup} {d : Debugger S} {a : Action S} {as : List (Action S)}
    (hag : ((d.instant σ n).thread t).agenda = a :: as) (hfair : ∀ n, ∃ m, n ≤ m ∧ σ m = .step t)
    (hact : ∀ (e : Debugger S) last, ∃ e' ans, e.act t last a = some (e', [], ans)) :
    ∃ m, n < m ∧ ((d.instant σ m).thread t).agenda = as := by
  obtain ⟨m, hnm, hturn, hsame⟩ := exists_turn (hag ▸ List.cons_ne_nil _ _) hfair
  rw [← hsame] at hag
  obtain ⟨e, ans, he⟩ := hact (d.instant σ m) ((d.instant σ m).thread t).answer
  obtain ⟨e', todo, ans', hact', -, hthread⟩ := (Does.of_act hturn hag he).next
  cases he.symm.trans hact'
  exact ⟨m + 1, Nat.lt_succ_of_le hnm, by rw [hthread]; rfl⟩

/-- **A run comes back.** -/
theorem Observed.comes_back (ho : d.Observed σ t h rest k) :
    ∃ r, k < r ∧ ((d.instant σ r).thread t).agenda = rest := by
  by_contra hnever
  have hnot : ∀ n, k < n → ((d.instant σ n).thread t).agenda ≠ rest :=
    fun n hkn hrest => hnever ⟨n, hkn, hrest⟩
  have hpending : ∀ n, k ≤ n → d.Pending σ t rest k n := fun n hkn =>
    ho.starts.pending (fun i hki _ => hnot i hki) hkn
  -- the induction is on the strokes that are left where the run is about to go on
  have hendless : ∀ left n todo, k < n →
      (Script.Program.strokesLeft (d.instant σ k).host.program todo).length = left →
      ((d.instant σ n).thread t).agenda ≠
      .host (.agenda h todo) :: .give (.ran (.ok ())) :: rest := by
    intro left
    induction left using Nat.strong_induction_on with
    | _ left ih =>
    intro n todo hkn hleft hag
    obtain ⟨m, hnm, hturn, hsame⟩ := exists_turn (hag ▸ List.cons_ne_nil _ _) ho.fair
    have hkm : k < m := Nat.lt_of_lt_of_le hkn hnm
    obtain ⟨done, l, hr⟩ := ho.runs hkm fun i hki _ => hnot i hki
    rw [← hsame] at hag
    cases todo with
    | nil =>
      obtain ⟨m₁, hmm₁, hgive⟩ := exists_behind hag ho.fair fun e last => ⟨_, _, rfl⟩
      obtain ⟨m₂, hmm₂, hback⟩ := exists_behind hgive ho.fair fun e last => ⟨_, _, rfl⟩
      exact hnot m₂ (by omega) hback
    | cons i more =>
      have hd : d.Does σ m t (.host (.agenda h (i :: more))) (.give (.ran (.ok ())) :: rest) :=
        .of_host hturn hag
      obtain ⟨todo, hfewer, hnext⟩ := hd.fewer hr.knows
      rw [hr.program, hleft] at hfewer
      rcases hnext with hnext | ⟨r, hnext⟩
      · exact ih _ hfewer (m + 1) todo (Nat.lt_succ_of_lt hkm) rfl hnext
      · obtain ⟨m₁, hmm₁, hturn₁, hsame₁⟩ := exists_turn (hnext ▸ List.cons_ne_nil _ _) ho.fair
        rw [← hsame₁] at hnext
        obtain ⟨m₂, hcall⟩ := ho.returns m₁ r _ (hpending m₁ (by omega)) hturn₁ hnext
        have hm₁₂ := hcall.before
        exact ih _ hfewer m₂ todo (by omega) rfl hcall.returned
  exact hendless _ (k + 1) _ (Nat.lt_succ_self k) rfl (by rw [ho.starts.next.2.2])

theorem Observed.first_return (ho : d.Observed σ t h rest k) :
    ∃ r, k < r ∧ ((d.instant σ r).thread t).agenda = rest ∧
      ∀ i, k < i → i < r → ((d.instant σ i).thread t).agenda ≠ rest := by
  classical
  have hex := ho.comes_back
  obtain ⟨hkr, hback⟩ := Nat.find_spec hex
  exact ⟨Nat.find hex, hkr, hback, fun i hki hir hrest => Nat.find_min hex hir ⟨hki, hrest⟩⟩

theorem Observed.completes (ho : d.Observed σ t h rest k) {r : Nat} (hkr : k < r)
    (hback : ((d.instant σ r).thread t).agenda = rest)
    (hfirst : ∀ i, k < i → i < r → ((d.instant σ i).thread t).agenda ≠ rest) :
    d.Completes σ t (.run h) rest k r where
  turn := ho.starts.turn
  begins := ho.starts.agenda
  before := hkr
  inside n hkn hnr := by
    obtain ⟨done, left, hr⟩ := ho.runs hkn fun i hki hin => hfirst i hki (Nat.lt_trans hin hnr)
    rcases hr.thread.cases with ⟨front, todo, last, hth, -⟩ | ⟨last, hth, -⟩ | ⟨hth, -⟩
    · refine ⟨front ++ [.host (.agenda h todo), .give (.ran (.ok ()))], by simp, ?_⟩
      rw [hth]
      simp
    · exact ⟨[.give (.ran (.ok ()))], by simp, by rw [hth]; rfl⟩
    · exact absurd (by rw [hth]) (hfirst n hkn hnr)
  returned := hback

/-- **A run goes along its trace.** It comes back with the answer that it ran. It has raised exactly
the trace of its program, in which calls nest; each event came with the activations under way at
that moment as the innermost frames, one more than calls are nested, above the frames that were
there before; and these are the frames when it is back. -/
theorem run_raises_its_trace (ho : d.Observed σ t h rest k) :
    let p : Script.Program := (d.instant σ k).host.program
    let before := Script.Machine.frames (d.instant σ k).host h
    ∃ r, d.Completes σ t (.run h) rest k r ∧ ((d.instant σ r).thread t).answer = .ran (.ok ()) ∧
      (d.raised σ t h k r).map (·.1) = p.trace ∧ Script.Nested p.trace ∧
      d.raised σ t h k r = p.tour.map (Script.Moment.shown before) ∧ (∀ m ∈ p.tour, p.Stands m) ∧
      Script.Machine.frames (d.instant σ r).host h = before := by
  intro p before
  obtain ⟨r, hkr, hback, hfirst⟩ := ho.first_return
  obtain ⟨done, left, hr⟩ := ho.runs hkr hfirst
  obtain ⟨hdone, hanswer, hframes⟩ := hr.returned hback
  have hraised : d.raised σ t h k r = p.tour.map (Script.Moment.shown before) := by
    rw [hr.raised fun i hki hir => ho.hooked i (ho.starts.pending (fun j hkj hji =>
      hfirst j hkj (Nat.lt_of_le_of_lt hji hir)) (Nat.le_of_lt hki)), hdone]
    exact Script.seen_course p before
  refine ⟨r, ho.completes hkr hback hfirst, hanswer, ?_, Script.nested_trace p, hraised,
    p.stands_tour, hframes⟩
  rw [hraised, List.map_map]
  exact Script.map_report_tour p

end Debugger

/-! ## A run -/

namespace Rehearsal

open Debugger (Schedule)

/-- A main function that declares and assigns a variable and calls another function,
which declares two locals. -/
def gameProgram : Script.Program where
  source := "@game"
  main := {
    lineDefined := 1
    lastLineDefined := 6
    body := [.declare 2 "lives" (.number 3.0), .assign 3 "score" (.number 1.0), .call 4 "f",
      .declare 5 "late" (.number 0.0)] }
  functions := [{
    name := "f"
    lineDefined := 7
    lastLineDefined := 10
    upvalues := [("depth", .number 2.0)]
    body := [.declare 8 "x" (.number 3.0), .declare 9 "y" (.number 4.0)] }]

/-- A machine with one execution, which has a hook. -/
def gameMachine : Script.Machine where
  program := gameProgram
  executions := [(⟨1⟩, { name := "game" })]
  hooked := [⟨1⟩]

/-- A debugger that is about to run a registered execution, and pauses nowhere. -/
def runningDebugger : Debugger ⟨Script.host, logic, sink⟩ where
  registry := [(⟨1⟩, 0)]
  contexts := [{ handle := ⟨1⟩, name := "game" }]
  host := gameMachine
  logic := ({} : LogicState)
  sink := ({} : SinkState)
  threads := [{ agenda := [.begin (.run ⟨1⟩)] }]

/-- Whether an action is a call of the hook. -/
def isHook {S : Setup} : Action S → Bool
  | .begin (.hook ..) => true
  | _ => false

/-- One thread has all turns. -/
def alone : Schedule := fun _ => .step 0

theorem runningDebugger_observed : runningDebugger.Observed alone 0 ⟨1⟩ [] 0 := by
  have hpast : ∀ n, runningDebugger.Pending alone 0 [] 0 n → n < 83 := by
    intro n hn
    refine Nat.lt_of_not_le fun hle => hn.2 83 (Nat.zero_le 83) hle ?_
    exact List.isEmpty_iff.1 (by decide +kernel)
  constructor
  case starts => exact ⟨rfl, rfl, by decide⟩
  case fair => exact fun n => ⟨n, Nat.le_refl n, rfl⟩
  case hooked =>
    have hhooked : ∀ n < 83, Script.Machine.isHooked (runningDebugger.instant alone n).host
        ⟨1⟩ = true := by
      decide +kernel
    exact fun n hn => hhooked n (hpast n hn)
  case only =>
    have honly : ∀ n < 83, (runningDebugger.instant alone n).OnlyRun (· == ⟨1⟩) 0 := by
      decide +kernel
    exact fun n hn => honly n (hpast n hn)
  case returns =>
    let height n := ((runningDebugger.instant alone n).thread 0).agenda.length
    have hreturns : ∀ n < 83, ((runningDebugger.instant alone n).thread 0).agenda.head?.any
        isHook = true → ∃ j < 16, 0 < j ∧ height (n + j) + 1 = height n ∧ ∀ i < j, 0 < i →
        height n ≤ height (n + i) := by
      decide +kernel
    intro n r more hn hturn hag
    obtain ⟨j, -, hj, hback, hinside⟩ := hreturns n (hpast n hn) (by rw [hag]; rfl)
    have hheight : height n = more.length + 1 := congrArg List.length hag
    refine ⟨n + j, Debugger.completes_of_height hturn hag (Nat.lt_add_of_pos_right hj)
      (fun i hni hij => ?_) (Nat.succ.inj (hback.trans hheight))⟩
    obtain ⟨i, rfl⟩ := Nat.exists_eq_add_of_lt hni
    have hi := hinside (i + 1) (by omega) (Nat.succ_pos i)
    rw [hheight] at hi
    exact hi

/-- Here a run raises its trace: the main function is called, comes to its lines,
and calls another function. -/
theorem running_raises : ∃ r, runningDebugger.Completes alone 0 (.run ⟨1⟩) [] 0 r ∧
    (runningDebugger.raised alone 0 ⟨1⟩ 0 r).map
      (fun (e, frames) => (e.code, e.line, frames.length)) = [(0, 1, 1), (2, 2, 1), (2, 3, 1),
        (2, 4, 1), (0, 7, 2), (2, 8, 2), (2, 9, 2), (1, 10, 2), (2, 5, 1),
        (1, 6, 1)] := by
  obtain ⟨r, hcall, -, -, -, hraised, -⟩ := Debugger.run_raises_its_trace runningDebugger_observed
  refine ⟨r, hcall, ?_⟩
  rw [hraised]
  decide +kernel

end Rehearsal

end ScriptDebug
