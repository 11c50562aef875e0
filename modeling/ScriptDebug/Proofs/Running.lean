import ScriptDebug.Proofs.Sparing
import ScriptDebug.Proofs.Tour

/-!
# A run among other threads

A thread runs a program, and other threads take turns in between: they answer the client, come to
the hook of this or another execution thread, install and remove hooks. The run goes along the
course of its program all the same.

`Runs` says how far a run has come at a turn: the strokes that are done and those that are left
together are the course of the program; the frames, what the hook was told and the globals that were
assigned are those of the strokes that are done. One turn keeps this (`Runs.next`), and so every run
has it (`Starts.runs`).
-/

namespace ScriptDebug.Debugger

variable {logic : Logic} {sink : Sink} {d e : Debugger ⟨Script.host, logic, sink⟩} {σ : Schedule}
  {t u : ThreadId} {h : Handle} {last ans : Answer} {a : Action ⟨Script.host, logic, sink⟩}
  {as rest todo : List (Action ⟨Script.host, logic, sink⟩)} {i k n r : Nat}

/-! ## A run under way -/

/-- **A run starts** as a thread begins it, above the rest of its agenda,
for an execution there is. -/
structure Starts (d : Debugger ⟨Script.host, logic, sink⟩) (σ : Schedule)
    (t : ThreadId) (h : Handle) (rest : List (Action ⟨Script.host, logic, sink⟩))
    (k : Nat) : Prop where
  turn : σ k = .step t
  agenda : ((d.instant σ k).thread t).agenda = .begin (.run h) :: rest
  knows : Script.Machine.knows (d.instant σ k).host h = true

/-- **Pending.** From one turn to another a thread has not come back to the rest of its agenda. -/
def Pending {S : Setup} (d : Debugger S) (σ : Schedule) (t : ThreadId) (rest : List (Action S))
    (k n : Nat) : Prop :=
  k ≤ n ∧ ∀ i, k ≤ i → i ≤ n → ((d.instant σ i).thread t).agenda ≠ rest

/-- **Leaves.** What is left of a run on a thread: it is at its hook or about to go on, it is over
but for its answer, or it has come back. -/
inductive Leaves (p : Script.Program) (h : Handle)
    (rest : List (Action ⟨Script.host, logic, sink⟩)) :
    Thread ⟨Script.host, logic, sink⟩ → List Script.Stroke → Prop
  | amid (front : List (Action ⟨Script.host, logic, sink⟩)) (todo : List Script.Instruction)
      (last : Answer) :
      Leaves p h rest ⟨front ++ .host (.agenda h todo) :: .give (.ran (.ok ())) :: rest, last⟩
        (p.strokesLeft todo)
  | answering (last : Answer) : Leaves p h rest ⟨.give (.ran (.ok ())) :: rest, last⟩ []
  | back : Leaves p h rest ⟨rest, .ran (.ok ())⟩ []

theorem Leaves.cases {p : Script.Program} {x : Thread ⟨Script.host, logic, sink⟩}
    {left : List Script.Stroke} (hl : Leaves p h rest x left) :
    (∃ front todo last, x = ⟨front ++ .host (.agenda h todo) ::
      .give (.ran (.ok ())) :: rest, last⟩ ∧
        left = p.strokesLeft todo) ∨
      (∃ last, x = ⟨.give (.ran (.ok ())) :: rest, last⟩ ∧ left = []) ∨
      x = ⟨rest, .ran (.ok ())⟩ ∧ left = [] := by
  cases hl with
  | amid front todo last => exact .inl ⟨front, todo, last, rfl, rfl⟩
  | answering last => exact .inr (.inl ⟨last, rfl, rfl⟩)
  | back => exact .inr (.inr ⟨rfl, rfl⟩)

/-- **Runs.** How far a run that started at turn `k` has come at turn `n`. -/
structure Runs (d : Debugger ⟨Script.host, logic, sink⟩) (σ : Schedule) (t : ThreadId) (h : Handle)
    (rest : List (Action ⟨Script.host, logic, sink⟩)) (k n : Nat)
    (done left : List Script.Stroke) : Prop where
  before : k < n
  program : (d.instant σ n).host.program = (d.instant σ k).host.program
  knows : Script.Machine.knows (d.instant σ n).host h = true
  thread : Leaves (d.instant σ k).host.program h rest ((d.instant σ n).thread t) left
  course : (d.instant σ k).host.program.course = done ++ left
  frames : Script.Machine.frames (d.instant σ n).host h =
    Script.framesBehind (Script.Machine.frames (d.instant σ k).host h) done
  assigned : d.assigned σ t h k n = done.filterMap Script.Stroke.assigned?
  /-- While there is a hook, it is told of all that is done. -/
  raised : (∀ i, k < i → i < n → Script.Machine.isHooked (d.instant σ i).host h = true) →
    d.raised σ t h k n = Script.seen (Script.Machine.frames (d.instant σ k).host h) done
  /-- While nobody else assigns globals, they are as the run assigns them. -/
  globals : (∀ i, k < i → i < n → d.Calm σ t i) → (d.instant σ n).host.globals =
    Script.Machine.assignedTo (d.instant σ k).host.globals (done.filterMap Script.Stroke.assigned?)

variable {done left : List Script.Stroke}

theorem Runs.stay (hr : d.Runs σ t h rest k n done left)
    (hthread : Leaves (d.instant σ k).host.program h rest ((d.instant σ (n + 1)).thread t) left)
    (hspares : Script.Machine.Spares (d.instant σ n).host h (d.instant σ (n + 1)).host)
    (hrecords : d.tellsAt σ t h n = none ∧ d.assignsAt σ t h n = none)
    (hglobals : d.Calm σ t n → (d.instant σ (n + 1)).host.globals = (d.instant σ n).host.globals) :
    d.Runs σ t h rest k (n + 1) done left where
  before := Nat.lt_succ_of_lt hr.before
  program := hspares.program.trans hr.program
  knows := hspares.knows.trans hr.knows
  thread := hthread
  course := hr.course
  frames := hspares.frames.trans hr.frames
  assigned := by
    rw [Debugger.assigned, recorded_succ _ (Nat.le_of_lt hr.before), hrecords.2, Option.toList_none,
      List.append_nil]
    exact hr.assigned
  raised hhook := by
    rw [Debugger.raised, recorded_succ _ (Nat.le_of_lt hr.before), hrecords.1, Option.toList_none,
      List.append_nil]
    exact hr.raised fun i hki hin => hhook i hki (Nat.lt_succ_of_lt hin)
  globals hcalm := (hglobals (hcalm n hr.before (Nat.lt_succ_self n))).trans
    (hr.globals fun i hki hin => hcalm i hki (Nat.lt_succ_of_lt hin))

/-- **An instruction is obeyed** at a turn of the run. -/
theorem Does.obeys {i : Script.Instruction} {more : List Script.Instruction}
    (hd : d.Does σ n t (.host (.agenda h (i :: more))) as) :
    let m : Script.Machine := (d.instant σ n).host
    (d.instant σ (n + 1)).host = (m.obey h i).1 ∧
      (d.instant σ (n + 1)).thread t =
      ⟨((m.obey h i).2.1.map fun r => Action.begin (.hook h r)).toList ++
        .host (.agenda h ((m.obey h i).2.2 ++ more)) :: as, .none⟩ := by
  intro m
  obtain ⟨e, todo, ans, hact, hnext, hthread⟩ := hd.next
  cases hact.symm.trans (act_agenda i more)
  exact ⟨by rw [hnext]; rfl, by rw [hthread, List.append_assoc]; rfl⟩

theorem Does.records {i : Script.Instruction} {more : List Script.Instruction}
    (hd : d.Does σ n t (.host (.agenda h (i :: more))) as) :
    let m : Script.Machine := (d.instant σ n).host
    d.assignsAt σ t h n = i.assigned? ∧
      d.tellsAt σ t h n = (m.obey h i).2.1.map (·, m.frames h) := by
  intro m
  unfold tellsAt assignsAt
  rw [hd.actionAt, Option.bind_some, Option.bind_some]
  refine ⟨if_pos rfl, ?_⟩
  show Option.map _ ((m.step (.agenda h (i :: more))).2.raised? h) = _
  rw [m.step_agenda]
  cases (m.obey h i).2.1 with
  | none => rfl
  | some r => simp [HostMove.raised?, m]

theorem Runs.advance {i : Script.Instruction} {more : List Script.Instruction}
    (hr : d.Runs σ t h rest k n done ((d.instant σ k).host.program.strokesLeft (i :: more)))
    (hd : d.Does σ n t (.host (.agenda h (i :: more))) (.give (.ran (.ok ())) :: rest)) :
    let m : Script.Machine := (d.instant σ n).host
    ∃ s silent, (m.isHooked h = true → silent = [] ∧ (m.obey h i).2.1 = s.report?) ∧
      d.Runs σ t h rest k (n + 1) (done ++ s :: silent.map .tell)
        ((d.instant σ k).host.program.strokesLeft ((m.obey h i).2.2 ++ more)) := by
  intro m
  obtain ⟨hhost, hthread⟩ := hd.obeys
  have hrecords := hd.records
  obtain ⟨s, silent, hof, hcarries, hhooked⟩ := Script.Machine.obey_strokes hr.knows i
  rw [hr.program] at hof
  have hassigned : (s :: silent.map Script.Stroke.tell).filterMap Script.Stroke.assigned? =
      i.assigned?.toList := by
    rw [← Script.Program.assigned?_of_strokesOf hof]
    have htells := Script.Machine.filterMap_assigned?_tells silent
    cases hs : s.assigned? with
    | none => rw [List.filterMap_cons_none hs, htells]; rfl
    | some v => rw [List.filterMap_cons_some hs, htells]; rfl
  refine ⟨s, silent, hhooked, ?_⟩
  constructor
  case before => exact Nat.lt_succ_of_lt hr.before
  case program => rw [hhost]; exact hcarries.program.trans hr.program
  case knows => rw [hhost]; exact hcarries.knows
  case thread =>
    rw [hthread]
    exact .amid _ _ _
  case course =>
    rw [hr.course, Script.Program.strokesLeft_append]
    show done ++ (Script.Program.strokesOf _ i ++ Script.Program.strokesLeft _ more) = _
    rw [hof]
    simp only [List.append_assoc, List.cons_append]
    rfl
  case frames =>
    rw [hhost, hcarries.frames, hr.frames, Script.framesBehind_append]
  case assigned =>
    rw [Debugger.assigned, recorded_succ _ (Nat.le_of_lt hr.before), hrecords.1,
      List.filterMap_append, hassigned]
    exact congrArg (· ++ _) hr.assigned
  case raised =>
    intro hhook
    obtain ⟨rfl, hreport⟩ := hhooked (hhook n hr.before (Nat.lt_succ_self n))
    have hdone := hr.raised fun i hki hin => hhook i hki (Nat.lt_succ_of_lt hin)
    rw [Debugger.raised, recorded_succ _ (Nat.le_of_lt hr.before), hrecords.2, hreport, hr.frames,
      Script.seen_append]
    simp only [List.map_nil, Script.seen, List.append_nil]
    exact congrArg (· ++ _) hdone
  case globals =>
    intro hcalm
    have hdone := hr.globals fun i hki hin => hcalm i hki (Nat.lt_succ_of_lt hin)
    rw [hhost, hcarries.globals, hdone, List.filterMap_append]
    exact List.foldl_append.symm

theorem host_succ {S : Setup} (d : Debugger S) (σ : Schedule) (n : Nat) :
    (d.instant σ (n + 1)).host = (d.instant σ n).host ∨ ∃ u a as, d.Does σ n u a as := by
  rw [instant_succ]
  rcases take_cases (d.instant σ n) (σ n) with
    h | ⟨u, d', hturn, hs, -⟩ | ⟨u, op, -, -, -, h⟩ | ⟨u, c, x, -, -, h⟩
  · exact .inl (by rw [h])
  · obtain ⟨a, as, e, todo, ans, hag, hact, -⟩ := step_cases hs
    exact .inr ⟨u, a, as, .of_act hturn hag hact⟩
  · exact .inl (by rw [h]; rfl)
  · exact .inl (by rw [h]; rfl)

/-- What a deed that runs nothing leaves of a run elsewhere. -/
theorem Does.spares (hd : d.Does σ n u a as) (hne : a.execution? ≠ some h) :
    Script.Machine.Spares (d.instant σ n).host h (d.instant σ (n + 1)).host := by
  obtain ⟨e, todo, ans, hact, hnext, -⟩ := hd.next
  rw [hnext]
  show Script.Machine.Spares _ h e.host
  exact act_spares hact hne

theorem Does.globals (hd : d.Does σ n u a as) (hcalm : d.Calm σ t n) (hrun : a.execution? = none) :
    (d.instant σ (n + 1)).host.globals = (d.instant σ n).host.globals := by
  obtain ⟨e, todo, ans, hact, hnext, -⟩ := hd.next
  rw [hnext]
  show Script.Machine.globals e.host = _
  refine act_globals hact hrun ?_
  have hload := hcalm.unloaded
  simp only [loadsAt, hd.turn, hd.actionAt, Option.any_some] at hload
  exact hload

theorem Runs.elsewhere (hr : d.Runs σ t h rest k n done left)
    (hpending : ((d.instant σ n).thread t).agenda ≠ rest)
    (honly : (d.instant σ n).OnlyRun (· == h) t) (hown : ¬ ∃ a as, d.Does σ n t a as) :
    d.Runs σ t h rest k (n + 1) done left := by
  have hthread : (d.instant σ (n + 1)).thread t = (d.instant σ n).thread t := by
    rcases thread_succ d σ n t with hsame | ⟨hid, -⟩ | hdoes
    · exact hsame
    · rcases hr.thread.cases with ⟨front, todo, last, hth, -⟩ | ⟨last, hth, -⟩ | ⟨hth, -⟩ <;>
        rw [hth] at hid
      · exact absurd hid (by simp)
      · exact absurd hid (by simp)
      · exact absurd (by rw [hth]) hpending
    · exact absurd hdoes hown
  have hne : ∀ u a as, d.Does σ n u a as → u ≠ t := fun u a as hd hut => hown ⟨a, as, hut ▸ hd⟩
  refine hr.stay (hthread ▸ hr.thread) ?_ (records_of_not_does hown) fun hcalm => ?_
  · rcases host_succ d σ n with hhost | ⟨u, a, as, hd⟩
    · rw [hhost]
      exact .refl _ h
    · have hother := honly.other (hne u a as hd) (hd.agenda ▸ List.mem_cons_self ..)
      exact hd.spares fun hx => by simp [hx] at hother
  · rcases host_succ d σ n with hhost | ⟨u, a, as, hd⟩
    · rw [hhost]
    · have hother := hcalm.only.other (hne u a as hd) (hd.agenda ▸ List.mem_cons_self ..)
      exact hd.globals hcalm (by cases hx : a.execution? with
        | none => rfl
        | some x => simp [hx] at hother)

theorem Runs.inside {front : List (Action ⟨Script.host, logic, sink⟩)}
    {todo : List Script.Instruction}
    (hr : d.Runs σ t h rest k n done ((d.instant σ k).host.program.strokesLeft todo))
    (hd : d.Does σ n t a (front ++ .host (.agenda h todo) :: .give (.ran (.ok ())) :: rest))
    (honly : (d.instant σ n).OnlyRun (· == h) t) :
    d.Runs σ t h rest k (n + 1) done ((d.instant σ k).host.program.strokesLeft todo) := by
  have hag : ((d.instant σ n).thread t).agenda =
      (a :: front) ++ .host (.agenda h todo) :: .give (.ran (.ok ())) :: rest := hd.agenda
  have habove : ∀ which : Handle → Bool, which h = true → (d.instant σ n).OnlyRun which t →
      a.execution?.any which = false :=
      fun which hwhich hon => hon.beside hag hwhich (List.mem_cons_self ..)
  have hne : a.execution? ≠ some h := fun hx => by
    have hfalse := habove (· == h) (beq_self_eq_true h) honly
    simp [hx] at hfalse
  obtain ⟨e, todo', ans, hact, hnext, hthread⟩ := hd.next
  refine hr.stay ?_ (hd.spares hne) (records_of_does hd hne) fun hcalm => hd.globals hcalm ?_
  · rw [hthread, ← List.append_assoc]
    exact .amid _ _ _
  · cases hx : a.execution? with
    | none => rfl
    | some x =>
      have hfalse := habove (fun _ => true) rfl hcalm.only
      simp [hx] at hfalse

theorem Runs.finish (hr : d.Runs σ t h rest k n done [])
    (hd : d.Does σ n t (.host (.agenda h [])) (.give (.ran (.ok ())) :: rest)) :
    d.Runs σ t h rest k (n + 1) done [] := by
  obtain ⟨e, todo, ans, hact, hnext, hthread⟩ := hd.next
  cases hact
  have hhost : (d.instant σ (n + 1)).host = (d.instant σ n).host := by
    rw [hnext]
    rfl
  refine hr.stay (hthread ▸ .answering _) (hhost ▸ .refl _ h) ?_ fun _ => by rw [hhost]
  unfold tellsAt assignsAt
  rw [hd.actionAt]
  exact ⟨rfl, rfl⟩

theorem Runs.answer (hr : d.Runs σ t h rest k n done [])
    (hd : d.Does σ n t (.give (.ran (.ok ()))) rest) :
    d.Runs σ t h rest k (n + 1) done [] := by
  obtain ⟨e, todo, ans, hact, hnext, hthread⟩ := hd.next
  cases hact
  have hhost : (d.instant σ (n + 1)).host = (d.instant σ n).host := by
    rw [hnext]
    rfl
  exact hr.stay (hthread ▸ .back) (hhost ▸ .refl _ h)
    (records_of_does hd fun hx => nomatch hx) fun _ => by rw [hhost]

/-- **One turn** of a run that has not come back. -/
theorem Runs.next (hr : d.Runs σ t h rest k n done left)
    (hpending : ((d.instant σ n).thread t).agenda ≠ rest)
    (honly : (d.instant σ n).OnlyRun (· == h) t) :
    ∃ done' left', d.Runs σ t h rest k (n + 1) done' left' := by
  by_cases hown : ∃ a as, d.Does σ n t a as
  · obtain ⟨a, as, hd⟩ := hown
    rcases hr.thread.cases with ⟨front, todo, last, hth, rfl⟩ | ⟨last, hth, rfl⟩ | ⟨hth, rfl⟩
    · have hag := hd.agenda
      rw [hth] at hag
      cases front with
      | nil =>
        obtain ⟨rfl, rfl⟩ := List.cons_eq_cons.1 hag
        cases todo with
        | nil => exact ⟨done, [], hr.finish hd⟩
        | cons i more =>
          obtain ⟨s, silent, -, hnext⟩ := hr.advance hd
          exact ⟨_, _, hnext⟩
      | cons b front =>
        obtain ⟨rfl, rfl⟩ := List.cons_eq_cons.1 hag
        exact ⟨done, _, hr.inside hd honly⟩
    · have hag := hd.agenda
      rw [hth] at hag
      obtain ⟨rfl, rfl⟩ := List.cons_eq_cons.1 hag
      exact ⟨done, [], hr.answer hd⟩
    · exact absurd (by rw [hth]) hpending
  · exact ⟨done, left, hr.elsewhere hpending honly hown⟩

/-! ## A whole run -/

/-- The first turn of a run puts its instructions on the agenda. -/
theorem Starts.next (hs : d.Starts σ t h rest k) :
    d.Does σ k t (.begin (.run h)) rest ∧ (d.instant σ (k + 1)).host = (d.instant σ k).host ∧
      (d.instant σ (k + 1)).thread t =
      ⟨.host (.agenda h (Script.Machine.agenda (d.instant σ k).host)) ::
        .give (.ran (.ok ())) :: rest, .none⟩ := by
  have hact : (d.instant σ k).act t ((d.instant σ k).thread t).answer (.begin (.run h)) = _ :=
    act_run hs.knows
  have hd : d.Does σ k t (.begin (.run h)) rest := .of_act hs.turn hs.agenda hact
  obtain ⟨e, todo, ans, hact', hnext, hthread⟩ := hd.next
  cases hact.symm.trans hact'
  exact ⟨hd, by rw [hnext]; rfl, hthread⟩

theorem Starts.first (hs : d.Starts σ t h rest k) :
    d.Runs σ t h rest k (k + 1) [] (d.instant σ k).host.program.course := by
  obtain ⟨hd, hhost, hthread⟩ := hs.next
  constructor
  case before => exact Nat.lt_succ_self k
  case program => rw [hhost]
  case knows => rw [hhost]; exact hs.knows
  case thread =>
    rw [hthread]
    exact Script.Machine.strokesLeft_agenda (d.instant σ k).host ▸ .amid [] _ _
  case course => rfl
  case frames => rw [hhost]; rfl
  case assigned =>
    rw [Debugger.assigned, recorded_succ _ (Nat.le_refl k), recorded_self, assignsAt, hd.actionAt]
    rfl
  case raised =>
    intro _
    rw [Debugger.raised, recorded_succ _ (Nat.le_refl k), recorded_self, tellsAt, hd.actionAt]
    rfl
  case globals =>
    intro _
    rw [hhost]
    rfl

/-- **A run** at any turn up to that at which it comes back. -/
theorem Starts.runs (hs : d.Starts σ t h rest k) (hkn : k < n)
    (hpending : ∀ i, k < i → i < n → ((d.instant σ i).thread t).agenda ≠ rest)
    (honly : ∀ i, k < i → i < n → (d.instant σ i).OnlyRun (· == h) t) :
    ∃ done left, d.Runs σ t h rest k n done left := by
  induction n, hkn using Nat.le_induction with
  | base => exact ⟨[], _, hs.first⟩
  | succ n hkn ih =>
    obtain ⟨done, left, hr⟩ := ih (fun i hki hin => hpending i hki (Nat.lt_succ_of_lt hin))
      (fun i hki hin => honly i hki (Nat.lt_succ_of_lt hin))
    exact hr.next (hpending n hkn (Nat.lt_succ_self n)) (honly n hkn (Nat.lt_succ_self n))

theorem Runs.returned (hr : d.Runs σ t h rest k n done left)
    (hback : ((d.instant σ n).thread t).agenda = rest) :
    done = (d.instant σ k).host.program.course ∧ ((d.instant σ n).thread t).answer = .ran (.ok ()) ∧
      Script.Machine.frames (d.instant σ n).host h = Script.Machine.frames
        (d.instant σ k).host h := by
  rcases hr.thread.cases with ⟨front, todo, last, hth, -⟩ | ⟨last, hth, -⟩ | ⟨hth, rfl⟩
  · have hlen := congrArg List.length hback
    rw [hth] at hlen
    simp only [List.length_append, List.length_cons] at hlen
    omega
  · rw [hth] at hback
    exact absurd hback (List.cons_ne_self _ _)
  · have hdone : done = (d.instant σ k).host.program.course := by
      rw [hr.course, List.append_nil]
    refine ⟨hdone, by rw [hth], ?_⟩
    rw [hr.frames, hdone]
    exact Script.framesBehind_strokesFrom _

end ScriptDebug.Debugger
