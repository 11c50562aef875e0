import ScriptDebug.Proofs.Asked
import ScriptDebug.Proofs.Parking
import ScriptDebug.Proofs.Stack
import ScriptDebug.Proofs.Tracing

/-!
# What a paused client sees

A client that lists the variables of a paused run is told those that its program has there
(`paused_client_sees_variables`).

1. While a run is in a call of its hook it makes no stroke (`AtEvent.runs`), so its frames stay
   those of one moment of its program's tour (`AtEvent.moment`).
2. A thread that is parked stays so for as long as its context is paused (`stays_parked`), so the
   moment lasts until the listing returns.
3. A listing asks for one variable after the other, while the frames stay (`Lists.next`), and ends
   with all of them (`Completes.listed`).
-/

namespace ScriptDebug

namespace Script

/-- The variables of a kind that an activation has. -/
def Activation.variables (a : Activation) : VariableKind → List Variable
  | .local => a.function.declared a.done
  | .upvalue => a.function.upvalues

/-- The variables of a kind in an activation, counted from the innermost one;
there are none beyond the outermost. -/
def variablesAt (stack : List Activation) (kind : VariableKind) (frame : Nat) : List Variable :=
  ((stack[frame]?).map (·.variables kind)).getD []

theorem Stroke.eq_tell {s : Stroke} {r : Hook.Report} (hs : s.report? = some r) : s = .tell r := by
  cases s with
  | tell => rw [Option.some.inj hs]
  | _ => cases hs

theorem Machine.variables_of_frames {m : Machine} {h : Handle} {stack : List Activation}
    (hframes : m.frames h = stack.map Activation.frame) (kind : VariableKind) (frame : Nat) :
    m.variables kind h frame = variablesAt stack kind frame := by
  rw [Machine.variables, m.frame?_eq, hframes, variablesAt, List.getElem?_map, Option.map_map]
  cases stack[frame]? with
  | none => rfl
  | some a => cases kind <;> rfl

theorem Machine.probe_some {m : Machine} {kind : VariableKind} {h : Handle} {frame i : Nat}
    {v : Variable} (hv : (m.variables kind h frame)[i]? = some v) :
    m.probe kind h frame (i + 1) = { shown := some v, found := true } := by
  rw [probe_eq, show m.variableAt? kind h frame (i + 1) = some v from hv]

theorem Machine.probe_none {m : Machine} {kind : VariableKind} {h : Handle} {frame i : Nat}
    (hv : (m.variables kind h frame)[i]? = none) : m.probe kind h frame (i + 1) = {} := by
  rw [probe_eq, show m.variableAt? kind h frame (i + 1) = none from hv]

theorem Machine.hooked_of_told {m : Machine} {h : Handle} {i : Instruction} {r : Hook.Report}
    (hr : (m.obey h i).2.1 = some r) : m.isHooked h = true := by
  cases i with
  | tell | callNative | returnNative =>
    simp only [obey, told] at hr
    split at hr
    · assumption
    · cases hr
  | _ => cases hr

end Script

theorem listing_concat (index : Nat) (vars : List Script.Variable) (v : Script.Variable) :
    listing index (vars ++ [v]) = listing index vars ++ [⟨index + vars.length, v.1⟩] := by
  induction vars generalizing index with
  | nil => rfl
  | cons w vars ih =>
    rw [List.cons_append, listing, ih, List.length_cons,
      show index + 1 + vars.length = index + (vars.length + 1) by omega]
    rfl

namespace Debugger

variable {logic : Logic} {sink : Sink} {d : Debugger ⟨Script.host, logic, sink⟩} {σ : Schedule}
  {t u : ThreadId} {h : Handle} {rest below : List (Action ⟨Script.host, logic, sink⟩)}
  {r : Hook.Report} {c : ContextId} {done : List Script.Stroke} {k m n i : Nat}

/-- **At an event.** A run told its hook of an event at turn `m`, and is in the call of the hook
since: its agenda stays higher than what the run itself takes. -/
structure AtEvent (d : Debugger ⟨Script.host, logic, sink⟩) (σ : Schedule)
    (t : ThreadId) (h : Handle) (rest : List (Action ⟨Script.host, logic, sink⟩)) (k m n : Nat)
    (r : Hook.Report) : Prop where
  pending : d.Pending σ t rest k n
  after : k < m
  before : m < n
  told : ∃ frames, d.tellsAt σ t h m = some (r, frames)
  inside : ∀ i, m < i → i ≤ n → rest.length + 2 < ((d.instant σ i).thread t).agenda.length

/-- **Shown as paused.** An execution is registered with a context, and the context is paused. -/
structure ShownPaused (d : Debugger ⟨Script.host, logic, sink⟩) (h : Handle)
    (c : ContextId) : Prop where
  registered : d.lookup h = some c
  paused : (d.contexts[c]?).any (·.isPaused) = true

/-! ## Where the run stands -/

theorem Runs.of_told {left : List Script.Stroke} {frames : List Script.Frame}
    (hr : d.Runs σ t h rest k n done left) (hpending : ((d.instant σ n).thread t).agenda ≠ rest)
    (honly : (d.instant σ n).OnlyRun (· == h) t) (htold : d.tellsAt σ t h n = some (r, frames)) :
    ∃ i more, left = (d.instant σ k).host.program.strokesLeft (i :: more) ∧
      d.Does σ n t (.host (.agenda h (i :: more))) (.give (.ran (.ok ())) :: rest) ∧
      (Script.Machine.obey (d.instant σ n).host h i).2.1 = some r := by
  have hown : ∃ a as, d.Does σ n t a as := by
    by_contra hno
    rw [(records_of_not_does hno).1] at htold
    cases htold
  obtain ⟨a, as, hd⟩ := hown
  have ha : a.execution? = some h := by
    by_contra hne
    rw [(records_of_does hd hne).1] at htold
    cases htold
  have hag := hd.agenda
  rcases hr.thread.cases with ⟨front, todo, last, hth, rfl⟩ | ⟨last, hth, rfl⟩ | ⟨hth, -⟩
  · cases front with
    | nil =>
      rw [hth] at hag
      obtain ⟨rfl, rfl⟩ := List.cons_eq_cons.1 hag
      cases todo with
      | nil =>
        rw [tellsAt, hd.actionAt] at htold
        cases htold
      | cons i more =>
        refine ⟨i, more, rfl, hd, ?_⟩
        rw [hd.records.2, Option.map_eq_some_iff] at htold
        obtain ⟨r', hr', heq⟩ := htold
        cases heq
        exact hr'
    | cons b front =>
      have hag' := congrArg Thread.agenda hth
      obtain rfl : b = a := (List.cons_eq_cons.1 (hag'.symm.trans hag)).1
      have hfalse :=
        honly.beside hag' (beq_self_eq_true h) (List.mem_append_left _ (List.mem_cons_self ..))
      rw [ha] at hfalse
      simp at hfalse
  · rw [hth] at hag
    obtain ⟨rfl, rfl⟩ := List.cons_eq_cons.1 hag
    cases ha
  · exact absurd (by rw [hth]) hpending

theorem Runs.waits {front : List (Action ⟨Script.host, logic, sink⟩)}
    (hr : d.Runs σ t h rest k n done ((d.instant σ k).host.program.strokesLeft todo))
    (hpending : ((d.instant σ n).thread t).agenda ≠ rest)
    (honly : (d.instant σ n).OnlyRun (· == h) t)
    (hag : ((d.instant σ n).thread t).agenda = front ++ .host (.agenda h todo) ::
      .give (.ran (.ok ())) :: rest)
    (hfront : front ≠ []) :
    d.Runs σ t h rest k (n + 1) done ((d.instant σ k).host.program.strokesLeft todo) := by
  by_cases hown : ∃ a as, d.Does σ n t a as
  · obtain ⟨a, as, hd⟩ := hown
    cases front with
    | nil => exact absurd rfl hfront
    | cons b front =>
      obtain ⟨rfl, rfl⟩ := List.cons_eq_cons.1 (hd.agenda.symm.trans hag)
      exact hr.inside hd honly
  · exact hr.elsewhere hpending honly hown

/-- **At an event** a run has done what its program does up to there. -/
theorem AtEvent.runs (hat : d.AtEvent σ t h rest k m n r) (hs : d.Starts σ t h rest k)
    (honly : ∀ i, d.Pending σ t rest k i → (d.instant σ i).OnlyRun (· == h) t) :
    ∃ done left left', d.Runs σ t h rest k m done left ∧ ∀ i, m < i → i ≤ n →
      d.Runs σ t h rest k i (done ++ [.tell r]) left' := by
  obtain ⟨frames, htold⟩ := hat.told
  have hpending : ∀ i, k ≤ i → i ≤ n → d.Pending σ t rest k i := fun i hki hin =>
    ⟨hki, fun j hkj hji => hat.pending.2 j hkj (Nat.le_trans hji hin)⟩
  have hne : ∀ i, k ≤ i → i ≤ n → ((d.instant σ i).thread t).agenda ≠ rest := hat.pending.2
  have hmn : m ≤ n := Nat.le_of_lt hat.before
  have hkm : k ≤ m := Nat.le_of_lt hat.after
  obtain ⟨done, left, hr⟩ :=
    hs.runs hat.after (fun i hki him => hne i (Nat.le_of_lt hki) (by omega))
    fun i hki him => honly i (hpending i (Nat.le_of_lt hki) (by omega))
  obtain ⟨i, more, rfl, hd, hraised⟩ :=
    hr.of_told (hne m hkm hmn) (honly m (hpending m hkm hmn)) htold
  obtain ⟨s, silent, hhooked, hnext⟩ := hr.advance hd
  obtain ⟨rfl, hreport⟩ := hhooked (Script.Machine.hooked_of_told hraised)
  obtain rfl : s = .tell r := Script.Stroke.eq_tell (hreport.symm.trans hraised)
  obtain ⟨-, hthread⟩ := hd.obeys
  rw [hraised] at hthread
  generalize (Script.Machine.obey (d.instant σ m).host h i).2.2 ++ more = todo at hthread hnext
  have hcall : ((d.instant σ (m + 1)).thread t).agenda =
      [.begin (.hook h r)] ++ .host (.agenda h todo) :: .give (.ran (.ok ())) :: rest := by
    rw [hthread]
    rfl
  -- the stack of the agenda, as long as it is higher than the run
  have hfront : ∀ i, m < i → i ≤ n → ∃ front, front ≠ [] ∧
      ((d.instant σ i).thread t).agenda = front ++
      .host (.agenda h todo) :: .give (.ran (.ok ())) :: rest := by
    intro i hmi hin
    rcases keeps_or_does hcall hmi with hkeeps | ⟨j, hmj, hji, -, hdoes⟩
    · obtain ⟨front, hi⟩ := hkeeps i hmi (Nat.le_refl i)
      refine ⟨front, fun hnil => ?_, hi⟩
      have hhigh := hat.inside i hmi hin
      rw [hi, hnil] at hhigh
      exact absurd hhigh (Nat.lt_irrefl _)
    · have hhigh := hat.inside j hmj (Nat.le_trans (Nat.le_of_lt hji) hin)
      rw [hdoes.agenda] at hhigh
      exact absurd hhigh (Nat.lt_irrefl _)
  refine ⟨done, _, Script.Program.strokesLeft (d.instant σ k).host.program todo, hr,
    fun j hmj => ?_⟩
  induction hmj with
  | refl => exact fun _ => hnext
  | @step j hmj ih =>
    intro hjn
    have hkj : k ≤ j := Nat.le_trans hkm (Nat.le_of_succ_le hmj)
    have hjn' : j ≤ n := Nat.le_of_succ_le hjn
    obtain ⟨front, hne', hag⟩ := hfront j hmj hjn'
    exact (ih hjn').waits (hne j hkj hjn') (honly j (hpending j hkj hjn')) hag hne'

/-- The activations under way at an event are those of a moment of the tour, and the frames are
theirs. With a hook all the way, it is the moment behind those of the events before. -/
theorem AtEvent.moment (hat : d.AtEvent σ t h rest k m n r) (hs : d.Starts σ t h rest k)
    (honly : ∀ i, d.Pending σ t rest k i → (d.instant σ i).OnlyRun (· == h) t) :
    let tour := Script.Program.tour (d.instant σ k).host.program
    ∃ mo ∈ tour, mo.report = r ∧
      ((∀ i, k < i → i < m → Script.Machine.isHooked (d.instant σ i).host h = true) →
        tour[(d.raised σ t h k m).length]? = some mo) ∧
      ∀ i, m < i → i ≤ n → Script.Machine.frames (d.instant σ i).host h =
        mo.stack.map Script.Activation.frame ++ Script.Machine.frames (d.instant σ k).host h := by
  intro tour
  obtain ⟨done, left, left', hbefore, hruns⟩ := hat.runs hs honly
  have hr := hruns n hat.before (Nat.le_refl n)
  generalize hbase : Script.Machine.frames (d.instant σ k).host h = base
  have hseen : (tour.map (Script.Moment.shown base))[(Script.seen base done).length]? =
      some (r, Script.framesBehind base done) := by
    have hcourse : _ = tour.map (Script.Moment.shown base) :=
      Script.seen_course (d.instant σ k).host.program base
    rw [← hcourse, hr.course, Script.seen_append, Script.seen_append, List.append_assoc,
      List.getElem?_append_right (Nat.le_refl _), Nat.sub_self]
    rfl
  rw [List.getElem?_map, Option.map_eq_some_iff] at hseen
  obtain ⟨mo, hmo, hshown⟩ := hseen
  have hreport : mo.report = r := congrArg Prod.fst hshown
  have hstack : mo.stack.map Script.Activation.frame ++ base = _ := congrArg Prod.snd hshown
  refine ⟨mo, List.mem_of_getElem? hmo, hreport, fun hhooked => ?_, fun i hmi hin => ?_⟩
  · rw [hbefore.raised hhooked, hbase]
    exact hmo
  · rw [(hruns i hmi hin).frames, hbase, hstack, Script.framesBehind_append]
    rfl

/-! ## Parked -/

theorem stays_parked {l : Nat} (hag : ((d.instant σ n).thread t).agenda = .parked c :: below)
    (hshown : ∀ i, n ≤ i → i ≤ l → (d.instant σ i).ShownPaused h c) :
    ∀ i, n ≤ i → i ≤ l → ((d.instant σ i).thread t).agenda = .parked c :: below ∨
      ((d.instant σ i).thread t).agenda = .wait c :: below := by
  intro i hni
  induction hni with
  | refl => exact fun _ => .inl hag
  | @step i hni ih =>
    intro hil
    have hil' : i ≤ l := Nat.le_of_succ_le hil
    have hpaused := (hshown i hni hil').paused
    obtain ⟨x, hx, hx'⟩ := (Option.any_eq_true _ _).1 hpaused
    rcases thread_succ d σ i t with hsame | ⟨hid, -⟩ | ⟨a, as, hd⟩
    · rw [hsame]
      exact ih hil'
    · rcases ih hil' with hi | hi <;> rw [hid] at hi <;> cases hi
    · obtain ⟨e, todo, ans, hact, -, hthread⟩ := hd.next
      rw [hthread]
      rcases ih hil' with hi | hi <;>
        obtain ⟨rfl, rfl⟩ := List.cons_eq_cons.1 (hd.agenda.symm.trans hi)
      · simp only [act, hx] at hact
        split at hact <;> cases hact
        exact .inr rfl
      · simp only [act, hx, Context.wait, hx', if_true] at hact
        cases hact
        exact .inl rfl

/-- A run is at its event for as long as its thread stays parked. -/
theorem AtEvent.stays {l : Nat} (hat : d.AtEvent σ t h rest k m n r)
    (hag : ((d.instant σ n).thread t).agenda = .parked c :: below) (hnl : n ≤ l)
    (hshown : ∀ i, n ≤ i → i ≤ l → (d.instant σ i).ShownPaused h c) :
    d.AtEvent σ t h rest k m l r := by
  have hstays : ∀ i, n ≤ i → i ≤ l →
      ((d.instant σ i).thread t).agenda.length = below.length + 1 := by
    intro i hni hil
    rcases stays_parked hag hshown i hni hil with hi | hi <;> rw [hi, List.length_cons]
  have hhigh := hat.inside n hat.before (Nat.le_refl n)
  rw [hag, List.length_cons] at hhigh
  refine ⟨⟨Nat.le_trans hat.pending.1 hnl, fun i hki hil hrest => ?_⟩, hat.after,
    Nat.lt_of_lt_of_le hat.before hnl, hat.told, fun i hmi hil => ?_⟩
  · rcases Nat.le_total i n with hin | hni
    · exact hat.pending.2 i hki hin hrest
    · have hi := hstays i hni hil
      rw [hrest] at hi
      omega
  · rcases Nat.le_total i n with hin | hni
    · exact hat.inside i hmi hin
    · have hi := hstays i hni hil
      omega

theorem Starts.no_frames (hs : d.Starts σ t h rest k) (hd : d.Initial)
    (hfresh : ∀ h, Script.Machine.frames d.host h = [])
    (honly : (d.instant σ k).OnlyRun (· == h) t) :
    Script.Machine.frames (d.instant σ k).host h = [] := by
  refine frames_of_idle (hd.stacked hfresh σ k) fun u a ha => ?_
  by_cases hx : a.execution? = some h
  · by_cases hut : u = t
    · subst hut
      have hag : ((d.instant σ k).thread u).agenda = [] ++ .begin (.run h) :: rest := hs.agenda
      rw [hag] at ha
      rcases List.mem_cons.1 ha with rfl | ha
      · rfl
      · have hfalse := honly.beside hag (beq_self_eq_true h) ha
        simp [hx] at hfalse
    · have hfalse := honly.other hut ha
      simp [hx] at hfalse
  · exact opens_of_execution? hx

/-! ## A listing -/

/-- **Lists.** How far the listing of some variables has come on a thread. -/
inductive Lists (c : ContextId) (kind : VariableKind) (h : Handle) (frame : Nat)
    (vars : List Script.Variable) (rest : List (Action ⟨Script.host, logic, sink⟩)) :
    Thread ⟨Script.host, logic, sink⟩ → Prop
  | looking (last : Answer) :
      Lists c kind h frame vars rest ⟨.inspect c (.listVariables kind h frame) :: rest, last⟩
  | counting (n : Nat) (last : Answer) : Lists c kind h frame vars rest
      ⟨.enumerate kind h frame (n + 1) (listing 1 (vars.take n)) :: rest, last⟩
  | listed : Lists c kind h frame vars rest ⟨rest, .slots (.ok (listing 1 vars))⟩

theorem Lists.cases {kind : VariableKind} {frame : Nat} {vars : List Script.Variable}
    {x : Thread ⟨Script.host, logic, sink⟩} (hl : Lists c kind h frame vars rest x) :
    (∃ last, x = ⟨.inspect c (.listVariables kind h frame) :: rest, last⟩) ∨
      (∃ n last, x = ⟨.enumerate kind h frame (n + 1) (listing 1 (vars.take n)) :: rest, last⟩) ∨
      x = ⟨rest, .slots (.ok (listing 1 vars))⟩ := by
  cases hl with
  | looking last => exact .inl ⟨last, rfl⟩
  | counting n last => exact .inr (.inl ⟨n, last, rfl⟩)
  | listed => exact .inr (.inr rfl)

theorem Lists.next {kind : VariableKind} {frame : Nat} {vars : List Script.Variable}
    (hshown : (d.instant σ n).ShownPaused h c)
    (hvars : Script.Machine.variables (d.instant σ n).host kind h frame = vars)
    (hl : Lists c kind h frame vars rest ((d.instant σ n).thread u))
    (hpending : ((d.instant σ n).thread u).agenda ≠ rest) :
    Lists c kind h frame vars rest ((d.instant σ (n + 1)).thread u) := by
  rcases thread_succ d σ n u with hsame | ⟨hid, -⟩ | ⟨a, as, hd⟩
  · rw [hsame]
    exact hl
  · rcases hl.cases with ⟨last, hth⟩ | ⟨m, last, hth⟩ | hth
    · rw [hth] at hid
      cases hid
    · rw [hth] at hid
      cases hid
    · exact absurd (by rw [hth]) hpending
  · obtain ⟨e, todo, ans, hact, -, hthread⟩ := hd.next
    have hag := hd.agenda
    rw [hthread]
    rcases hl.cases with ⟨last, hth⟩ | ⟨m, last, hth⟩ | hth
    · rw [hth] at hag
      obtain ⟨rfl, rfl⟩ := List.cons_eq_cons.1 hag
      obtain ⟨x, hx, hpaused⟩ := (Option.any_eq_true _ _).1 hshown.paused
      simp only [act, hx, hpaused, if_true] at hact
      cases hact
      exact .counting 0 _
    · rw [hth] at hag
      obtain ⟨rfl, rfl⟩ := List.cons_eq_cons.1 hag
      cases hv : vars[m]? with
      | some v =>
        have hprobe : Script.host.probe (d.instant σ n).host kind h frame (m + 1) =
            { shown := some v, found := true } :=
          Script.Machine.probe_some (by rw [hvars, hv])
        simp only [act, hprobe] at hact
        cases hact
        have hlisting : listing 1 (vars.take (m + 1)) = listing 1 (vars.take m) ++
            [⟨m + 1, v.1⟩] := by
          have hm : m < vars.length := (List.getElem?_eq_some_iff.1 hv).1
          rw [List.take_add_one, hv, Option.toList_some, listing_concat, List.length_take,
            Nat.min_eq_left (Nat.le_of_lt hm), Nat.add_comm 1 m]
        have hnext : Lists c kind h frame vars rest
            ⟨.enumerate kind h frame (m + 1 + 1) (listing 1 (vars.take (m + 1))) :: rest, .none⟩ :=
            .counting (m + 1) _
        rw [hlisting] at hnext
        exact hnext
      | none =>
        have hprobe : Script.host.probe (d.instant σ n).host kind h frame (m + 1) = {} :=
          Script.Machine.probe_none (by rw [hvars, hv])
        simp only [act, hprobe] at hact
        cases hact
        rw [List.take_of_length_le (List.getElem?_eq_none_iff.1 hv)]
        exact .listed
    · exact absurd (by rw [hth]) hpending

/-- **A listing that returns** while the execution is shown as paused and its
variables stay tells them all. -/
theorem Completes.listed {kind : VariableKind} {frame l : Nat} {vars : List Script.Variable}
    (hc : d.Completes σ u (.listVariables kind h frame) rest n l)
    (hshown : ∀ i, n ≤ i → i ≤ l → (d.instant σ i).ShownPaused h c)
    (hvars : ∀ i, n ≤ i → i ≤ l →
      Script.Machine.variables (d.instant σ i).host kind h frame = vars) :
    ((d.instant σ l).thread u).answer = .slots (.ok (listing 1 vars)) := by
  have hlists : ∀ i, n < i → i ≤ l → Lists c kind h frame vars rest ((d.instant σ i).thread u) := by
    intro i hni
    induction hni with
    | refl =>
      intro _
      have hact : (d.instant σ n).act u ((d.instant σ n).thread u).answer
          (.begin (.listVariables kind h frame)) =
          some (d.instant σ n, [.inspect c (.listVariables kind h frame)], .none) := by
        simp only [act, beginOperation, beginLook,
          (hshown n (Nat.le_refl n) (Nat.le_of_lt hc.before)).registered]
      obtain ⟨e, todo, ans, hact', -, hthread⟩ := hc.first.next
      cases hact.symm.trans hact'
      rw [hthread]
      exact .looking _
    | @step i hni ih =>
      intro hil
      have hni' : n ≤ i := Nat.le_of_succ_le hni
      refine (ih (Nat.le_of_succ_le hil)).next (hshown i hni' (Nat.le_of_succ_le hil))
        (hvars i hni' (Nat.le_of_succ_le hil)) fun hback => ?_
      exact Nat.ne_of_lt hil (hc.eq_of_agenda hni (Nat.le_of_succ_le hil) hback)
  have hl := hlists l hc.before (Nat.le_refl l)
  have hback := hc.returned
  rcases hl.cases with ⟨last, hth⟩ | ⟨m, last, hth⟩ | hth
  · rw [hth] at hback
    exact absurd hback (List.cons_ne_self _ _)
  · rw [hth] at hback
    exact absurd hback (List.cons_ne_self _ _)
  · rw [hth]

/-- **A paused client sees the variables that there are.** A run with its hook installed, of an
execution that is run nowhere else, is parked at a line event. Then the innermost activation of that
moment stands at a statement of that line, and each other one at the call of the next. A client that
lists the local variables of the innermost one is told those that the statements before this one
have declared, for each other one those declared before its call, and for upvalues those of its
function, all in their order and counted from one; beyond the outermost activation there are
none. -/
theorem paused_client_sees_variables (hd : d.Initial)
    (hfresh : ∀ h, Script.Machine.frames d.host h = []) (hs : d.Starts σ t h rest k)
    (honly : ∀ i, d.Pending σ t rest k i → (d.instant σ i).OnlyRun (· == h) t)
    (hhooked : ∀ i, k < i → i < m → Script.Machine.isHooked (d.instant σ i).host h = true)
    (hat : d.AtEvent σ t h rest k m n r) (hline : r.code = Hook.Kind.line.code)
    (hparked : ((d.instant σ n).thread t).agenda = .parked c :: below)
    (hshown : (d.instant σ n).ShownPaused h c) :
    let p : Script.Program := (d.instant σ k).host.program
    ∃ depth a callers s tag, p.tour[(d.raised σ t h k m).length]? = some ⟨r, depth, a :: callers⟩ ∧
      a.function.body[a.done]? = some s ∧ r = p.report a.function tag .line s.line ∧
      p.Linked (a :: callers) ∧ (∀ u kind frame, u < (d.instant σ n).threads.length →
        (d.instant σ n).Finishes u (.listVariables kind h frame) (d.instant σ n)
          (.slots (.ok (listing 1 (Script.variablesAt (a :: callers) kind frame))))) ∧
      ∀ u kind frame rest' j l, n ≤ j → d.Completes σ u (.listVariables kind h frame) rest' j l →
        (∀ i, n ≤ i → i ≤ l → (d.instant σ i).ShownPaused h c) →
        ((d.instant σ l).thread u).answer =
          .slots (.ok (listing 1 (Script.variablesAt (a :: callers) kind frame))) := by
  intro p
  have hbase : Script.Machine.frames (d.instant σ k).host h = [] := hs.no_frames hd hfresh (honly k
    ⟨Nat.le_refl k, fun i hki hik => hat.pending.2 i hki (Nat.le_trans hik hat.pending.1)⟩)
  obtain ⟨⟨report, depth, stack⟩, hmo, rfl, hplace, hframes⟩ := hat.moment hs honly
  have hstands := p.stands_tour _ hmo
  obtain ⟨a, callers, rfl, htells⟩ := hstands.tells
  obtain ⟨s, tag, hs', hr⟩ := htells.line_statement hline
  have hnow : Script.Machine.frames (d.instant σ n).host h =
      (a :: callers).map Script.Activation.frame := by
    rw [hframes n hat.before (Nat.le_refl n), hbase, List.append_nil]
  refine ⟨depth, a, callers, s, tag, hplace hhooked, hs', hr, hstands.linked,
    fun u kind frame hu => ?_, fun u kind frame rest' j l hnj hc hshown' => ?_⟩
  · have hworks : Works u (d.instant σ n) .none [.begin (.listVariables kind h frame)] _ _ :=
      works_outcomeOn (h := h) rfl .none
    have hfree : (d.instant σ n).refusal? h = none := by
      simp only [refusal?, hshown.registered, hshown.paused, if_true]
    unfold outcomeOn at hworks
    simp only [hfree, looked, Script.Machine.variables_of_frames hnow] at hworks
    exact hworks.finishes hu
  · have hnl : n ≤ l := Nat.le_trans hnj (Nat.le_of_lt hc.before)
    obtain ⟨mo, -, -, -, hframes'⟩ := (hat.stays hparked hnl hshown').moment hs honly
    refine hc.listed (fun i hji hil => hshown' i (Nat.le_trans hnj hji) hil) fun i hji hil => ?_
    have hni : n ≤ i := Nat.le_trans hnj hji
    have hsame : Script.Machine.frames (d.instant σ i).host h =
        Script.Machine.frames (d.instant σ n).host h :=
      (hframes' i (Nat.lt_of_lt_of_le hat.before hni) hil).trans (hframes' n hat.before hnl).symm
    exact Script.Machine.variables_of_frames (hsame.trans hnow) kind frame

end Debugger

/-! ## A client that looks -/

namespace Rehearsal

open Debugger (Schedule)

/-- A debugger that pauses at line 9, with a machine that has nothing to do yet, and two threads. -/
def gameDebugger : Debugger ⟨Script.host, logic, sink⟩ where
  host := { gameMachine with hooked := [] }
  logic := ({ plan := { lines := [9] } } : LogicState)
  sink := ({} : SinkState)
  threads := [{}, {}]

/-- A client attaches the execution, another thread runs it until it parks in the second function,
and the client lists the locals of the main function. -/
def inspecting : Schedule := .ofTurns <|
  .call 0 (.attach ⟨1⟩ "game") :: .replicate 11 (.step 0) ++
  .call 1 (.run ⟨1⟩) :: .replicate 58 (.step 1) ++
    .call 0 (.listVariables .local ⟨1⟩ 1) :: .replicate 4 (.step 0)

theorem gameDebugger_initial : gameDebugger.Initial where
  registry := rfl
  contexts := rfl
  dispatch := rfl
  idle
    | 0 | 1 => rfl
    | _ + 2 => rfl

theorem gameDebugger_fresh (h : Handle) : Script.Machine.frames gameDebugger.host h = [] := by
  unfold Script.Machine.frames Script.Machine.execution? gameDebugger gameMachine
  simp only [Ascending.get?]
  split <;> rfl

theorem inspecting_starts : gameDebugger.Starts inspecting 1 ⟨1⟩ [] 13 where
  turn := rfl
  agenda := Debugger.agenda_of_call rfl (List.isEmpty_iff.1 (by decide +kernel)) (by decide +kernel)
  knows := by decide +kernel

theorem inspecting_only (i : Nat) : (gameDebugger.instant inspecting i).OnlyRun (· == ⟨1⟩) 1 := by
  have honly : ∀ i < 77, (gameDebugger.instant inspecting i).OnlyRun (· == ⟨1⟩) 1 := by
    decide +kernel
  rcases Nat.lt_or_ge i 76 with hi | hi
  · exact honly i (Nat.lt_succ_of_lt hi)
  · have hidle : ((gameDebugger.instant inspecting 76).thread 0).agenda = [] :=
      List.isEmpty_iff.1 (by decide +kernel)
    have hturns : ∀ i, 76 ≤ i → inspecting i = .step 0 := fun i hi => by
      obtain ⟨i, rfl⟩ := Nat.exists_eq_add_of_le' hi
      rfl
    rw [Debugger.instant_of_idle hturns hidle hi]
    exact honly 76 (by decide)

theorem inspecting_atEvent :
    gameDebugger.AtEvent inspecting 1 ⟨1⟩ [] 13 59 71
      (gameProgram.report gameProgram.functions[0] "Lua" .line 9) where
  pending := by
    have hbusy : ∀ i < 72, 13 ≤ i →
        0 < ((gameDebugger.instant inspecting i).thread 1).agenda.length := by
      decide +kernel
    refine ⟨by decide, fun i hki hin hnil => ?_⟩
    have hi := hbusy i (Nat.lt_succ_of_le hin) hki
    rw [hnil] at hi
    exact Nat.lt_irrefl 0 hi
  after := by decide
  before := by decide
  told := by
    have htold : (gameDebugger.tellsAt inspecting 1 ⟨1⟩ 59).map (·.1) =
        some (gameProgram.report gameProgram.functions[0] "Lua" .line 9) := by decide +kernel
    obtain ⟨⟨report, frames⟩, htells, rfl⟩ := Option.map_eq_some_iff.1 htold
    exact ⟨frames, htells⟩
  inside := by
    have hhigh : ∀ i < 72, 59 < i →
        2 < ((gameDebugger.instant inspecting i).thread 1).agenda.length := by
      decide +kernel
    exact fun i hmi hin => hhigh i (Nat.lt_succ_of_le hin) hmi

theorem inspecting_shown (i : Nat) (hi : 71 ≤ i) (hil : i ≤ 76) :
    (gameDebugger.instant inspecting i).ShownPaused ⟨1⟩ 0 := by
  have hshown : ∀ i < 77, 71 ≤ i → (gameDebugger.instant inspecting i).lookup ⟨1⟩ = some 0 ∧
      ((gameDebugger.instant inspecting i).contexts[0]?).any (·.isPaused) = true := by
      decide +kernel
  exact ⟨(hshown i (Nat.lt_succ_of_le hil) hi).1, (hshown i (Nat.lt_succ_of_le hil) hi).2⟩

theorem inspecting_completes :
    gameDebugger.Completes inspecting 0 (.listVariables .local ⟨1⟩ 1) [] 72 76 := by
  have hbusy : ∀ i < 76, 72 < i →
      0 < ((gameDebugger.instant inspecting i).thread 0).agenda.length := by
    decide +kernel
  exact Debugger.completes_of_height rfl
    (Debugger.agenda_of_call rfl (List.isEmpty_iff.1 (by decide +kernel)) (by decide +kernel))
    (by decide) (fun i hi hil => hbusy i hil hi) (by decide +kernel)

/-- A client that pauses the second function is told the one local of the main function that is
declared before the call. -/
theorem inspecting_sees :
    ((gameDebugger.instant inspecting 76).thread 0).answer = .slots (.ok [⟨1, "lives"⟩]) := by
  obtain ⟨below, hparked⟩ := parkedIn_eq (S := ⟨Script.host, logic, sink⟩) (c := 0)
    (x := (gameDebugger.instant inspecting 71).thread 1) (by decide +kernel)
  have hhooked : ∀ i < 59, 13 < i →
      Script.Machine.isHooked (gameDebugger.instant inspecting i).host ⟨1⟩ = true := by
    decide +kernel
  obtain ⟨depth, a, callers, s, tag, hplace, -, -, -, -, hlisted⟩ :=
    Debugger.paused_client_sees_variables gameDebugger_initial
      gameDebugger_fresh inspecting_starts
      (fun i _ => inspecting_only i) (fun i hki him => hhooked i him hki)
      inspecting_atEvent rfl hparked (inspecting_shown 71 (by decide) (by decide))
  have hlisting : (Script.Program.tour (gameDebugger.instant inspecting 13).host.program)[
      (gameDebugger.raised inspecting 1 ⟨1⟩ 13 59).length]?.map (fun m =>
        ScriptDebug.listing 1 (Script.variablesAt m.stack .local 1)) =
          some [⟨1, "lives"⟩] := by decide +kernel
  rw [hplace, Option.map_some] at hlisting
  rw [hlisted 0 .local 1 [] 72 76 (by decide) inspecting_completes inspecting_shown]
  exact congrArg (fun slots => Answer.slots (.ok slots)) (Option.some.inj hlisting)

end Rehearsal

end ScriptDebug
