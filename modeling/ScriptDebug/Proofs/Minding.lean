import ScriptDebug.Proofs.Attaching

/-!
# Workers on their way through a run

The thread of a worker runs one execution over and over. What comes of a run minds the execution it
runs (`Minds`): it raises no hooks but its own, and parks in no contexts but its own, if the client
logic keeps to other executions and runs none (`act_minds`). So it parks nowhere any more when these
contexts are closed (`Steered.not_parked`).
-/

namespace ScriptDebug

variable {logic : Logic} {sink : Sink}

/-- Code that runs an execution raises the hook of this execution, and goes on to run it;
other code does not. -/
theorem Script.Machine.execution?_step (m : Script.Machine) (code : Script.Code) :
    match (m.step code).2 with
    | .raise x _ next => code.execution? = some x ∧ next.execution? = some x
    | .next next => next.execution? = code.execution?
    | .done _ => True := by
  cases code with
  | expression => trivial
  | file => trivial
  | agenda x todo =>
    cases todo with
    | nil => trivial
    | cons i todo =>
      rw [step_agenda]
      cases (m.obey x i).2.1 with
      | none => rfl
      | some r => exact ⟨rfl, rfl⟩

/-- **Minds.** An action belongs to a run of an execution under way: it leaves what others do not
own alone, raises no hook but that of the execution, and parks in no context but in those made for
it since. -/
def Action.Minds (F : Handle → Prop) (N : Nat) (h : Handle) (d : Debugger (Demo.setup logic sink)) :
    Action (Demo.setup logic sink) → Prop
  | .begin (.run _) => False
  | .begin (.hook x _) => x = h
  | .begin op => op.Abides F
  | .install x | .uninstall x => F x
  | .locate x _ => x = h
  | .decide c _ | .wait c | .parked c => d.Since N h c
  | .host code => ∀ x, Script.Code.execution? code = some x → x = h
  | _ => True

namespace Debugger

variable {F : Handle → Prop} {d₀ d e : Debugger (Demo.setup logic sink)} {t : ThreadId}
  {last ans : Answer} {a : Action (Demo.setup logic sink)}
  {todo : List (Action (Demo.setup logic sink))} {N : Nat} {h : Handle} {regs hooks : List Handle}

theorem minds_of_preserves (ha : a.Minds F N h d) (hp : d.Preserves e) : a.Minds F N h e := by
  cases a with
  | begin op => cases op <;> exact ha
  | decide c | wait c | parked c => exact Since.mono ha hp
  | _ => exact ha

theorem minds_of_not_raises {op : Operation} (hop : op.Abides F) (hraises : op.raises = false) :
    (.begin op : Action (Demo.setup logic sink)).Minds F N h d := by
  cases op <;> first | exact hop | cases hraises

theorem act_host_minds {code : Script.Code} (hcode : ∀ x, code.execution? = some x → x = h)
    (hact : d.act t last (.host code) = some (e, todo, ans)) : ∀ b ∈ todo, b.Minds F N h d := by
  have hstep := Script.Machine.execution?_step d.host code
  simp only [act, Script.host] at hact
  split at hact <;> cases hact
  · rename_i x r next hmove
    rw [hmove] at hstep
    obtain ⟨hx, hnext⟩ := hstep
    rintro b (_ | ⟨_, _ | ⟨_, ⟨⟩⟩⟩)
    · exact hcode x hx
    · exact fun y hy => hcode y (hx.trans (hnext.symm.trans hy))
  · rename_i next hmove
    rw [hmove] at hstep
    rintro b (_ | ⟨_, ⟨⟩⟩)
    exact fun y hy => hcode y (hstep.symm.trans hy)
  · exact fun b hb => absurd hb List.not_mem_nil

theorem minds_look (op : Operation) :
    ∀ b ∈ (op.look : List (Action (Demo.setup logic sink))), b.Minds F N h d := by
  cases op with
  | evaluate | load =>
    rintro b (_ | ⟨_, _ | ⟨_, ⟨⟩⟩⟩)
    · exact nofun
    · trivial
  | listVariables | fetchVariable =>
    rintro b (_ | ⟨_, ⟨⟩⟩)
    trivial
  | _ => exact fun b hb => absurd hb List.not_mem_nil

/-- **A run minds its execution** whatever comes of it. -/
theorem act_minds (hlogic : logic.Abides F) (hsince : ∀ c, d.lookup h = some c → d.Since N h c)
    (ha : a.Minds F N h d) (hact : d.act t last a = some (e, todo, ans)) :
    ∀ b ∈ todo, b.Minds F N h e := by
  suffices hd : ∀ b ∈ todo, b.Minds F N h d from
      fun b hb => minds_of_preserves (hd b hb) (act_preserves hact)
  have hl := act_leads hact
  cases a with
  | host code => exact act_host_minds ha hact
  | inspect c op =>
    obtain rfl | rfl := hl
    · exact fun b hb => absurd hb List.not_mem_nil
    · exact minds_look op
  | logic p =>
    obtain rfl | ⟨s, last, op, next, hu, rfl⟩ := hl
    · exact fun b hb => absurd hb List.not_mem_nil
    · rintro b (_ | ⟨_, _ | ⟨_, ⟨⟩⟩⟩)
      · exact minds_of_not_raises (hlogic s p last op next hu).1 (hlogic s p last op next hu).2
      · trivial
  | locate x r =>
    obtain rfl : x = h := ha
    obtain rfl | ⟨c, name, hc, rfl⟩ := hl
    · exact fun b hb => absurd hb List.not_mem_nil
    · have hown := hsince c hc
      intro b hb
      simp only [Action.dispatch, List.cons_append, List.nil_append, List.mem_cons,
        List.not_mem_nil, or_false] at hb
      rcases hb with rfl | rfl | rfl | rfl | rfl <;> first | exact hown | trivial
  | begin op =>
    cases op <;> grind [Leads, OperationLeads, Action.dispatch, Action.Minds, Operation.Abides]
  | resumeEach cs n => cases cs <;> grind [Leads, Action.Minds]
  | describe cs done => cases cs <;> grind [Leads, Action.Minds]
  | _ => grind [Leads, Action.Minds, Operation.Abides]

theorem act_run_minds (hact : d.act t last (.begin (.run h)) = some (e, todo, ans)) :
    ∀ b ∈ todo, b.Minds F N h e := by
  cases hk : Script.Machine.knows d.host h with
  | true =>
    rw [act_run hk] at hact
    cases hact
    rintro b (_ | ⟨_, _ | ⟨_, ⟨⟩⟩⟩)
    · exact fun x hx => (Option.some.inj hx).symm
    · trivial
  | false =>
    rw [act_run_unknown hk] at hact
    cases hact
    exact fun b hb => absurd hb List.not_mem_nil

/-! ## Workers -/

/-- What stands on the agenda of a worker: nothing, unless a run is under way or about to begin. -/
def Agenda (F : Handle → Prop) (N : Nat) (d : Debugger (Demo.setup logic sink))
    (w : Demo.Worker) : Prop :=
  match w.work with
  | .run => (d.thread w.thread).agenda = [.begin (.run w.handle)] ∨
      ∀ a ∈ (d.thread w.thread).agenda, a.Minds F N w.handle d
  | _ => (d.thread w.thread).agenda = []

/-- **Steered.** A worker has a thread of its own, and an execution that was untouched at first and
got a context since; and its agenda is that of its work. -/
structure Steered (F : Handle → Prop) (d₀ d : Debugger (Demo.setup logic sink))
    (w : Demo.Worker) : Prop where
  pos : 0 < w.thread
  lt : w.thread < d.threads.length
  free : ¬ F w.handle
  untouched : d₀.Untouched w.handle
  context : ∃ c, d.Since d₀.contexts.length w.handle c
  agenda : d.Agenda F d₀.contexts.length w

variable {w : Demo.Worker}

theorem Steered.mono (hw : Steered F d₀ d w) (hp : d.Preserves e)
    (hlen : d.threads.length ≤ e.threads.length) (hth : e.thread w.thread = d.thread w.thread) :
    Steered F d₀ e w where
  pos := hw.pos
  lt := Nat.lt_of_lt_of_le hw.lt hlen
  free := hw.free
  untouched := hw.untouched
  context := hw.context.imp fun _ hc => hc.mono hp
  agenda := by
    have hag := hw.agenda
    unfold Agenda at hag ⊢
    rw [hth]
    split at hag
    · exact hag.imp_right fun hall a ha => minds_of_preserves (hall a ha) hp
    · exact hag

/-- **A step of a worker.** -/
theorem Steered.step {d' : Debugger (Demo.setup logic sink)} (hw : Steered F d₀ d w)
    (hlogic : logic.Abides F) (hch : Changed F d₀ d regs hooks) (hs : d.step w.thread = some d') :
    Steered F d₀ d' w ∧
      ∀ a ∈ (d'.thread w.thread).agenda, a.Minds F d₀.contexts.length w.handle d' := by
  obtain ⟨a, rest, e, todo, ans, hag, hact, rfl, hself, -⟩ := step_cases hs
  have hpres := act_preserves hact
  have hwork : w.work = .run ∧ ((d.thread w.thread).agenda = [.begin (.run w.handle)] ∨
      ∀ a ∈ (d.thread w.thread).agenda, a.Minds F d₀.contexts.length w.handle d) := by
    have hagenda := hw.agenda
    unfold Agenda at hagenda
    split at hagenda
    · exact ⟨‹_›, hagenda⟩
    · rw [hag] at hagenda
      cases hagenda
  have hminds : ∀ b ∈ todo ++ rest, b.Minds F d₀.contexts.length w.handle e := by
    rcases hwork.2 with hrun | hall
    · rw [hag] at hrun
      cases hrun
      rw [List.append_nil]
      exact act_run_minds hact
    · rw [hag] at hall
      intro b hb
      rcases List.mem_append.1 hb with hb | hb
      · exact act_minds hlogic (fun c => hch.since hw.free hw.untouched.1)
          (hall a List.mem_cons_self) hact b hb
      · exact minds_of_preserves (hall b (List.mem_cons_of_mem a hb)) hpres
  have hthread : ∀ b ∈ ((e.setThread w.thread ⟨todo ++ rest, ans⟩).thread w.thread).agenda,
      b.Minds F d₀.contexts.length w.handle e := by
    rw [hself]
    exact hminds
  have hset : d.Preserves (e.setThread w.thread ⟨todo ++ rest, ans⟩) := ⟨hpres.context, hpres.knows⟩
  refine ⟨⟨hw.pos, ?_, hw.free, hw.untouched, hw.context.imp fun _ hc => hc.mono hset, ?_⟩, hthread⟩
  · simp only [setThread, List.length_set, act_threads hact]
    exact hw.lt
  · unfold Agenda
    rw [hwork.1]
    exact .inr hthread

/-! ## Parked -/

/-- **Parked.** Whether a thread waits in the queue of a context. -/
def isParked {S : Setup} (d : Debugger S) (t : ThreadId) : Bool :=
  match (d.thread t).agenda with
  | .parked c :: _ => (d.contexts[c]?).any fun x => x.waiters.contains t
  | _ => false

/-- A worker whose contexts are closed is not parked. -/
theorem Steered.not_parked (hw : Steered F d₀ d w) (hcons : ∀ x ∈ d.contexts, x.Consistent)
    (hclosed : ∀ c x, d₀.contexts.length ≤ c → d.contexts[c]? = some x → x.handle = w.handle →
      x.closed = true) :
    d.isParked w.thread = false := by
  unfold isParked
  split
  · rename_i c rest hag
    obtain ⟨hN, x, hx, hh⟩ : d.Since d₀.contexts.length w.handle c := by
      have hagenda := hw.agenda
      unfold Agenda at hagenda
      rw [hag] at hagenda
      split at hagenda
      · rcases hagenda with hrun | hall
        · cases hrun
        · exact hall _ List.mem_cons_self
      · cases hagenda
    obtain ⟨-, hrun, hwait⟩ := hcons x (List.mem_of_getElem? hx)
    have hempty : x.waiters = [] := by
      by_contra hne
      have hpaused := hwait hne
      rw [hrun (hclosed c x hN hx hh)] at hpaused
      cases hpaused
    rw [hx, Option.any_some, hempty, List.contains_nil]
  · rfl

end Debugger

end ScriptDebug
