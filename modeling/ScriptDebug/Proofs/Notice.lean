import ScriptDebug.Proofs.Hit

/-!
# Notices and pauses

Every notice of a pause that the protocol sends belongs to a hit, and every hit that has told the
client decides later: the context pauses, or refuses as it is closed. So the notices for a context
are as many as its pauses and such refusals together, but for a hit that is just between the two;
and a thread between the two holds the dispatch lock.
-/

namespace ScriptDebug

namespace Protocol

/-! ## Messages told apart -/

/-- The letter that tells the kinds of events apart. -/
def Notice.letter : Notice → Char
  | .added .. => 'A'
  | .removed .. => 'R'
  | .paused .. => 'P'

theorem Notice.text_letter (n : Notice) :
    n.json.text.toList[9]? = some 'E' ∧ n.json.text.toList[32]? = some n.letter := by
  rw [Json.text, String.toList_ofList]
  cases n <;> unfold Notice.json Notice.title Notice.letter <;>
    simp [Json.chars, Json.memberChars, Json.stringChars, Json.escapeChar]

theorem Reply.text_letter (r : Reply) : r.json.text.toList[9]? = some 'R' := by
  rw [Json.text, String.toList_ofList]
  unfold Reply.json
  simp [Json.chars, Json.memberChars, Json.stringChars, Json.escapeChar]

variable {h : Handle} {name : String} {b : Breakpoint} {e : Hook.Event}

theorem Reply.text_ne (r : Reply) : r.json.text ≠ (Notice.paused h name b e).json.text := by
  intro heq
  have hn := (Notice.text_letter (.paused h name b e)).1
  rw [← heq, Reply.text_letter r] at hn
  exact absurd hn (by decide)

theorem Notice.text_ne {n : Notice} (hn : n.letter ≠ 'P') :
    n.json.text ≠ (Notice.paused h name b e).json.text := by
  intro heq
  have hp := (Notice.text_letter (.paused h name b e)).2
  rw [← heq, (Notice.text_letter n).2] at hp
  exact hn (Option.some.inj hp)

theorem deliver_ne {route : Route} {r : Reply} {text : String} {next : Point}
    (hd : deliver route r = .use (.send text) next) :
    text ≠ (Notice.paused h name b e).json.text := by
  unfold deliver sendJson at hd
  split at hd <;> cases hd
  exact Reply.text_ne r

theorem answer_ne {table : BreakpointTable} {route : Route} {j : Json} {text : String}
    {next : Point} (ha : (answer table route j).2 = .use (.send text) next) :
    text ≠ (Notice.paused h name b e).json.text := by
  unfold answer at ha
  split at ha
  · exact deliver_ne ha
  · rename_i command hc
    split at ha
    · cases ha
      exact absurd (readCommand_use hc) (by simp [Operation.isAsked])
    · split at ha
      · exact deliver_ne ha
      · cases ha

theorem step_tells {table : BreakpointTable} {p next : Point} {last : Answer} {text : String}
    (hs : (step table p last).2 = .use (.send text) next)
    (ht : text = (Notice.paused h name b e).json.text) :
    ∃ x n ev, p = .called (.breakpoint x n ev) := by
  cases p with
  | called call =>
    cases call with
    | reload => cases hs
    | added x n =>
      have htext : (Notice.added x n).json.text = text :=
        Operation.send.inj (LogicMove.use.inj hs).1
      exact absurd (htext.trans ht) (Notice.text_ne (by simp [Notice.letter]))
    | removed x n =>
      have htext : (Notice.removed x n).json.text = text :=
        Operation.send.inj (LogicMove.use.inj hs).1
      exact absurd (htext.trans ht) (Notice.text_ne (by simp [Notice.letter]))
    | breakpoint x n ev => exact ⟨x, n, ev, rfl⟩
    | message m =>
      simp only [step, enter] at hs
      split at hs
      · have hd : deliver .message _ = .use (.send text) next := hs
        exact absurd ht (deliver_ne hd)
      · exact absurd ht (answer_ne hs)
    | request j => exact absurd ht (answer_ne hs)
  | answering route j => exact absurd ht (deliver_ne hs)
  | sending v =>
    simp only [step] at hs
    split at hs <;> cases hs

end Protocol

namespace Debugger

variable {host : Host} {sink : Sink} {d d' : Debugger (Protocol.setup host sink)} {σ : Schedule}
  {f : Handle → ThreadId} {n : Nat} {t u : ThreadId} {c : ContextId} {ev : Hook.Event}
  {a b : Action (Protocol.setup host sink)} {rest todo : List (Action (Protocol.setup host sink))}
  {last ans : Answer} {x : Thread (Protocol.setup host sink)}

/-! ## What happens to a hit -/

/-- **Announcement.** A thread is about to tell the client that its hit pauses the context. -/
def Announces (d : Debugger (Protocol.setup host sink)) (t : ThreadId) (c : ContextId)
    (ev : Hook.Event) : Prop :=
  ∃ text rest y b, (d.thread t).agenda = .begin (.send text) :: rest ∧ .decide c ev ∈ rest ∧
    d.contexts[c]? = some y ∧ text = (Protocol.Notice.paused y.handle y.name b ev).json.text

/-- **Pause.** The decision of a hit is about to pause the context. -/
def Pauses (d : Debugger (Protocol.setup host sink)) (t : ThreadId) (c : ContextId)
    (ev : Hook.Event) : Prop :=
  ∃ rest y z, d.thread t = ⟨.decide c ev :: rest, .handled (.ok false)⟩ ∧
    d.contexts[c]? = some y ∧ y.pause ev = .ok z

/-- **Refusal.** The decision of a hit is about to be refused, as the context is closed. -/
def Refuses (d : Debugger (Protocol.setup host sink)) (t : ThreadId) (c : ContextId)
    (ev : Hook.Event) : Prop :=
  ∃ rest y, d.thread t = ⟨.decide c ev :: rest, .handled (.ok false)⟩ ∧
    d.contexts[c]? = some y ∧ y.pause ev = .error .closed

/-- **Known hit.** The thread is in a hit at an event, and the client knows. -/
def KnownHit (c : ContextId) (ev : Hook.Event) (x : Thread (Protocol.setup host sink)) : Prop :=
  ∃ h name stage rest, Stage h name ev stage x.answer true ∧ x.agenda = stage ++
    .decide c ev :: rest

/-- **Told.** The thread is in a hit of which the client knows. -/
def Told (c : ContextId) (x : Thread (Protocol.setup host sink)) : Prop := ∃ ev, KnownHit c ev x

theorem KnownHit.decide_mem (h : KnownHit c ev x) : .decide c ev ∈ x.agenda := by
  obtain ⟨_, _, stage, rest, -, hag⟩ := h
  rw [hag]
  exact List.mem_append_right _ List.mem_cons_self

theorem Told.decide_mem (h : Told c x) : ∃ ev, .decide c ev ∈ x.agenda :=
  h.imp fun _ hk => hk.decide_mem

theorem Announces.decide_mem (h : d.Announces t c ev) : .decide c ev ∈ (d.thread t).agenda := by
  obtain ⟨text, rest, -, -, hag, hmem, -⟩ := h
  rw [hag]
  exact List.mem_cons_of_mem _ hmem

theorem Pauses.decide_mem (h : d.Pauses t c ev) : .decide c ev ∈ (d.thread t).agenda := by
  obtain ⟨rest, -, -, hth, -⟩ := h
  rw [hth]
  exact List.mem_cons_self

theorem Refuses.decide_mem (h : d.Refuses t c ev) : .decide c ev ∈ (d.thread t).agenda := by
  obtain ⟨rest, -, hth, -⟩ := h
  rw [hth]
  exact List.mem_cons_self

theorem Attended.hit_unique (ha : d.Attended σ f) {ev' : Hook.Event}
    (ht : .decide c ev ∈ ((d.instant σ n).thread t).agenda)
    (hu : .decide c ev' ∈ ((d.instant σ n).thread u).agenda) : t = u := by
  obtain ⟨y, -, -, -, hy, hft, -⟩ := (ha.place n t).decide ht
  obtain ⟨z, -, -, -, hz, hfu, -⟩ := (ha.place n u).decide hu
  obtain rfl : y = z := Option.some.inj (hy.symm.trans hz)
  exact hft.symm.trans hfu

theorem eq_of_split {l l' r r' : List (Action (Protocol.setup host sink))} {ev' : Hook.Event}
    (h : l ++ .decide c ev :: r = l' ++ .decide c ev' :: r') (hl : ∀ k e, .decide k e ∉ l)
    (hl' : ∀ k e, .decide k e ∉ l') : l = l' ∧ ev = ev' ∧ r = r' := by
  induction l generalizing l' with
  | nil =>
    cases l' with
    | nil =>
      cases h
      exact ⟨rfl, rfl, rfl⟩
    | cons b l' =>
      obtain ⟨rfl, -⟩ := List.cons_eq_cons.1 h
      exact absurd List.mem_cons_self (hl' c ev)
  | cons b l ih =>
    cases l' with
    | nil =>
      obtain ⟨rfl, -⟩ := List.cons_eq_cons.1 h
      exact absurd List.mem_cons_self (hl c ev')
    | cons b' l' =>
      obtain ⟨rfl, htail⟩ := List.cons_eq_cons.1 h
      obtain ⟨rfl, hev, hr⟩ := ih htail (fun k e hm => hl k e (List.mem_cons_of_mem _ hm))
        fun k e hm => hl' k e (List.mem_cons_of_mem _ hm)
      exact ⟨rfl, hev, hr⟩

theorem told_iff {h : Handle} {name : String} {told : Bool}
    {stage : List (Action (Protocol.setup host sink))} (hs : Stage h name ev stage ans told) :
    Told c ⟨stage ++ .decide c ev :: rest, ans⟩ ↔ told = true := by
  constructor
  · rintro ⟨ev', _, _, stage', rest', hs', hag⟩
    obtain ⟨rfl, -, -⟩ := eq_of_split hag hs.decide_not_mem hs'.decide_not_mem
    exact hs.told_eq hs'
  · rintro rfl
    exact ⟨ev, h, name, stage, rest, hs, rfl⟩

theorem decide_not_mem_of_act {k : ContextId} {e' : Hook.Event}
    {d e : Debugger (Protocol.setup host sink)}
    (h : d.act t last (.decide c ev) = some (e, todo, ans)) (hrest : ∀ a ∈ rest, a.isHit = false) :
    .decide k e' ∉ todo ++ rest := by
  intro hmem
  rcases List.mem_append.1 hmem with hmem | hmem
  · obtain rfl | rfl := act_leads h <;> simp at hmem
  · exact absurd (hrest _ hmem) (by simp [Action.isHit])

/-- **A step of a hit** goes on to the next stage, or decides. -/
theorem Attended.hit_step (ha : d.Attended σ f) (hs : (d.instant σ n).step t = some d')
    (hmem : .decide c ev ∈ ((d.instant σ n).thread t).agenda) :
    ∃ y, (d.instant σ n).contexts[c]? = some y ∧
      ((∃ a more todo rest ans told told',
          (d.instant σ n).thread t = ⟨a :: (more ++ .decide c ev :: rest),
            ((d.instant σ n).thread t).answer⟩ ∧
          Stage y.handle y.name ev (a :: more) ((d.instant σ n).thread t).answer told ∧
          d'.thread t = ⟨(todo ++ more) ++ .decide c ev :: rest, ans⟩ ∧
          Stage y.handle y.name ev (todo ++ more) ans told' ∧
          (told' = true ↔ told = true ∨ ∃ text, a = .begin (.send text))) ∨
        ∃ rest b, (d.instant σ n).thread t = ⟨.decide c ev :: rest, .handled (.ok b)⟩ ∧
          ∀ k e, .decide k e ∉ (d'.thread t).agenda) := by
  obtain ⟨y, stage, told, rest, hy, -, hstage, hag, hrest⟩ := (ha.place n t).decide hmem
  obtain ⟨a, rest', e, todo, ans, hag', hact, -, hself, -⟩ := step_cases hs
  have hth : ∀ as, ((d.instant σ n).thread t).agenda = as →
      (d.instant σ n).thread t = ⟨as, ((d.instant σ n).thread t).answer⟩ := by
    rintro as rfl
    rfl
  refine ⟨y, hy, ?_⟩
  cases stage with
  | nil =>
    have hsplit : a :: rest' = .decide c ev :: rest := hag'.symm.trans hag
    obtain ⟨rfl, rfl⟩ := List.cons_eq_cons.1 hsplit
    refine .inr ?_
    generalize hlast : ((d.instant σ n).thread t).answer = last at hstage hact
    cases hstage with
    | deciding b =>
      refine ⟨rest', b, ?_, fun k e' hmem => ?_⟩
      · rw [hth _ hag', hlast]
      · rw [hself] at hmem
        exact decide_not_mem_of_act hact hrest hmem
  | cons a' more =>
    have hsplit : a :: rest' = a' :: (more ++ .decide c ev :: rest) := hag'.symm.trans hag
    obtain ⟨rfl, rfl⟩ := List.cons_eq_cons.1 hsplit
    obtain ⟨told', hs', htold⟩ := hstage.act ha.accepts hact
    refine .inl ⟨a, more, todo, rest, ans, told, told', hth _ hag', hstage, ?_, hs', htold⟩
    rw [hself, List.append_assoc]

/-- Only a hook that finds a context comes to decide about it, behind the taking of the lock. -/
theorem Leads.found_of_decide {S : Setup} {d : Debugger S} {a : Action S} {todo : List (Action S)}
    (h : d.Leads a todo) (hmem : .decide c ev ∈ todo) :
    (∃ x, d.lookup x = some c) ∧ ∃ more, todo = .lock :: more := by
  cases a with
  | locate x r =>
    obtain rfl | ⟨k, name, hk, rfl⟩ := h
    · exact absurd hmem List.not_mem_nil
    · obtain ⟨rfl, -⟩ : k = c ∧ _ := by simpa [Action.dispatch, eq_comm] using hmem
      exact ⟨⟨x, hk⟩, _, rfl⟩
  | begin op => cases op <;> exfalso <;> grind [Leads, OperationLeads, Action.dispatch]
  | resumeEach cs n => cases cs <;> exfalso <;> grind [Leads]
  | describe cs done => cases cs <;> exfalso <;> grind [Leads]
  | inspect k op => cases op <;> exfalso <;> grind [Leads, Operation.look]
  | _ => exfalso; grind [Leads, Action.dispatch]

theorem not_told_of_step (hs : d.step t = some d')
    (hnot : ¬ ∃ ev, .decide c ev ∈ (d.thread t).agenda) : ¬ Told c (d'.thread t) := by
  intro htold
  obtain ⟨a, rest, e, todo, ans, hag, hact, -, hself, -⟩ := step_cases hs
  obtain ⟨ev, hmem⟩ := htold.decide_mem
  rw [hself] at hmem htold
  rcases List.mem_append.1 hmem with hmem | hmem
  · obtain ⟨-, more, rfl⟩ := (act_leads hact).found_of_decide hmem
    obtain ⟨_, _, _, stage, rest', hstage, hsplit⟩ := htold
    cases stage with
    | nil => exact absurd (List.cons_eq_cons.1 hsplit).1 (by simp)
    | cons b stage =>
      obtain ⟨rfl, -⟩ := List.cons_eq_cons.1 hsplit
      cases hstage
  · exact hnot ⟨ev, by rw [hag]; exact List.mem_cons_of_mem _ hmem⟩

theorem pause_cases {y : Context} (hy : y.isPaused = false) (ev : Hook.Event) :
    (∃ z, y.pause ev = .ok z) ↔ ¬ y.pause ev = .error .closed := by
  unfold Context.pause
  rw [hy]
  cases y.closed <;> simp

/-! ## What a step does to a hit -/

theorem Announces.eq_of_thread (h : d.Announces t c ev) (hth : d.thread t = ⟨a :: rest, ans⟩) :
    ∃ text, a = .begin (.send text) := by
  obtain ⟨text, rest', -, -, hag, -⟩ := h
  rw [hth] at hag
  exact ⟨text, (List.cons_eq_cons.1 hag).1⟩

theorem Pauses.eq_of_thread (h : d.Pauses t c ev) (hth : d.thread t = ⟨a :: rest, ans⟩) :
    a = .decide c ev ∧ ans = .handled (.ok false) := by
  obtain ⟨rest', -, -, hth', -⟩ := h
  cases hth.symm.trans hth'
  exact ⟨rfl, rfl⟩

theorem Refuses.eq_of_thread (h : d.Refuses t c ev) (hth : d.thread t = ⟨a :: rest, ans⟩) :
    a = .decide c ev ∧ ans = .handled (.ok false) := by
  obtain ⟨rest', -, hth', -⟩ := h
  cases hth.symm.trans hth'
  exact ⟨rfl, rfl⟩

theorem pauses_iff {y : Context} (hth : d.thread t = ⟨.decide c ev :: rest, .handled (.ok false)⟩)
    (hy : d.contexts[c]? = some y) : (∃ ev, d.Pauses t c ev) ↔ ∃ z, y.pause ev = .ok z := by
  constructor
  · rintro ⟨ev', rest', y', z, hth', hy', hz⟩
    cases hth.symm.trans hth'
    cases hy.symm.trans hy'
    exact ⟨z, hz⟩
  · rintro ⟨z, hz⟩
    exact ⟨ev, rest, y, z, hth, hy, hz⟩

theorem refuses_iff {y : Context} (hth : d.thread t = ⟨.decide c ev :: rest, .handled (.ok false)⟩)
    (hy : d.contexts[c]? = some y) : (∃ ev, d.Refuses t c ev) ↔ y.pause ev = .error .closed := by
  constructor
  · rintro ⟨ev', rest', y', hth', hy', hz⟩
    cases hth.symm.trans hth'
    cases hy.symm.trans hy'
    exact hz
  · intro hz
    exact ⟨ev, rest, y, hth, hy, hz⟩

/-- **Progress** of a thread with its hits in a context: a step tells the client of one, or decides
about one that the client knows of, or does neither. -/
inductive Progress (d d' : Debugger (Protocol.setup host sink)) (t : ThreadId)
    (c : ContextId) : Prop
  | tells (hann : ∃ ev, d.Announces t c ev) (hpause : ¬ ∃ ev, d.Pauses t c ev)
      (hrefuse : ¬ ∃ ev, d.Refuses t c ev) (hbefore : ¬ Told c (d.thread t))
      (hafter : Told c (d'.thread t))
  | decides (hann : ¬ ∃ ev, d.Announces t c ev)
      (hdecides : (∃ ev, d.Pauses t c ev) ↔ ¬ ∃ ev, d.Refuses t c ev)
      (hbefore : Told c (d.thread t)) (hafter : ¬ Told c (d'.thread t))
  | neither (hann : ¬ ∃ ev, d.Announces t c ev) (hpause : ¬ ∃ ev, d.Pauses t c ev)
      (hrefuse : ¬ ∃ ev, d.Refuses t c ev) (htold : Told c (d.thread t) ↔ Told c (d'.thread t))

/-- Before the decision, the step that tells the client is the one after which it knows. -/
theorem progress_of_stage {y : Context} {more : List (Action (Protocol.setup host sink))}
    {told told' : Bool} (hy : d.contexts[c]? = some y)
    (hth : d.thread t = ⟨a :: (more ++ .decide c ev :: rest), last⟩)
    (hs : Stage y.handle y.name ev (a :: more) last told)
    (hth' : d'.thread t = ⟨(todo ++ more) ++ .decide c ev :: rest, ans⟩)
    (hs' : Stage y.handle y.name ev (todo ++ more) ans told')
    (hnext : told' = true ↔ told = true ∨ ∃ text, a = .begin (.send text)) : d.Progress d' t c := by
  have hbefore : Told c (d.thread t) ↔ told = true := by
    rw [hth]
    exact told_iff hs
  have hafter : Told c (d'.thread t) ↔ told' = true := by
    rw [hth']
    exact told_iff hs'
  have hundecided : ∀ ev', a ≠ .decide c ev' := by
    rintro ev' rfl
    exact hs.decide_not_mem c ev' List.mem_cons_self
  have hpause : ¬ ∃ ev', d.Pauses t c ev' := fun ⟨ev', h⟩ => hundecided ev' (h.eq_of_thread hth).1
  have hrefuse : ¬ ∃ ev', d.Refuses t c ev' := fun ⟨ev', h⟩ => hundecided ev' (h.eq_of_thread hth).1
  by_cases htells : ∃ text, a = .begin (.send text)
  · obtain ⟨text, rfl⟩ := htells
    have hafter : Told c (d'.thread t) := hafter.2 (hnext.2 (.inr ⟨text, rfl⟩))
    cases hs with
    | telling b _ _ htext =>
      exact .tells ⟨ev, text, _, y, b, by rw [hth], by simp, hy, htext⟩ hpause hrefuse
        (by rw [hbefore]; decide) hafter
  · refine .neither (fun ⟨ev', h⟩ => htells (h.eq_of_thread hth)) hpause hrefuse ?_
    rw [hbefore, hafter, hnext, or_iff_left htells]

theorem progress_of_decision {y : Context} {answer : Bool} (hy : d.contexts[c]? = some y)
    (hth : d.thread t = ⟨.decide c ev :: rest, .handled (.ok answer)⟩)
    (hrun : answer = false → y.isPaused = false) (hafter : ¬ Told c (d'.thread t)) :
    d.Progress d' t c := by
  have hbefore : Told c (d.thread t) ↔ (!answer) = true := by
    rw [hth]
    let stage : List (Action (Protocol.setup host sink)) := []
    have hs : Stage y.handle y.name ev stage (.handled (.ok answer)) (!answer) := .deciding answer
    exact told_iff hs
  have hann : ¬ ∃ ev', d.Announces t c ev' := fun ⟨ev', h⟩ => by
    obtain ⟨text, htext⟩ := h.eq_of_thread hth
    cases htext
  cases answer with
  | true =>
    refine .neither hann (fun ⟨ev', h⟩ => ?_) (fun ⟨ev', h⟩ => ?_)
      (iff_of_false (by rw [hbefore]; decide) hafter)
    · cases (h.eq_of_thread hth).2
    · cases (h.eq_of_thread hth).2
  | false =>
    refine .decides hann ?_ (hbefore.2 rfl) hafter
    rw [pauses_iff hth hy, refuses_iff hth hy]
    exact pause_cases (hrun rfl) ev

/-- **A step makes progress.** -/
theorem Attended.progress (ha : d.Attended σ f) (c : ContextId)
    (hs : (d.instant σ n).step t = some d') : (d.instant σ n).Progress d' t c := by
  by_cases hhit : ∃ ev, .decide c ev ∈ ((d.instant σ n).thread t).agenda
  · obtain ⟨ev, hmem⟩ := hhit
    obtain ⟨y, hy, ⟨a, more, todo, rest, ans, told, told', hth, hstage, hself, hs', hnext⟩ |
      ⟨rest, b, hth, hnone⟩⟩ := ha.hit_step hs hmem
    · exact progress_of_stage hy hth hstage hself hs' hnext
    · refine progress_of_decision hy hth (fun hb => ?_) fun h => ?_
      · subst hb
        exact ha.not_isPaused (by rw [hth]) hy
      · obtain ⟨ev', hmem'⟩ := h.decide_mem
        exact hnone c ev' hmem'
  · exact .neither (fun ⟨ev, h⟩ => hhit ⟨ev, h.decide_mem⟩) (fun ⟨ev, h⟩ => hhit ⟨ev, h.decide_mem⟩)
      (fun ⟨ev, h⟩ => hhit ⟨ev, h.decide_mem⟩)
      (iff_of_false (fun h => hhit h.decide_mem) (not_told_of_step hs hhit))

/-! ## Counting -/

open Classical in
/-- **Tally.** In how many of the first `n` turns a thread does what it was about to do. -/
noncomputable def tally {S : Setup} (d : Debugger S) (σ : Schedule)
    (E : Debugger S → ThreadId → Prop) : Nat → Nat
  | 0 => 0
  | n + 1 => tally d σ E n + if ∃ t, σ n = .step t ∧ E (d.instant σ n) t then 1 else 0

section Tally

variable {S : Setup} {d e : Debugger S} {E : Debugger S → ThreadId → Prop} {a : Action S}
  {rest todo : List (Action S)}

open Classical in
theorem tally_succ_of_step (hturn : σ n = .step t) :
    d.tally σ E (n + 1) = d.tally σ E n + if E (d.instant σ n) t then 1 else 0 := by
  have hE : (∃ u, σ n = .step u ∧ E (d.instant σ n) u) ↔ E (d.instant σ n) t := by
    constructor
    · rintro ⟨u, hu, hE⟩
      rw [hturn] at hu
      cases hu
      exact hE
    · exact fun hE => ⟨t, hturn, hE⟩
  rw [tally]
  simp only [hE]

theorem tally_succ_of_not (h : ∀ u, σ n = .step u → ¬ E (d.instant σ n) u) :
    d.tally σ E (n + 1) = d.tally σ E n := by
  rw [tally, if_neg fun ⟨u, hu, hE⟩ => h u hu hE, Nat.add_zero]

theorem step_of_act (hag : (d.thread t).agenda = a :: rest)
    (h : d.act t (d.thread t).answer a = some (e, todo, ans)) : ∃ d', d.step t = some d' := by
  unfold step
  rw [hag]
  dsimp only
  rw [h]
  exact ⟨_, rfl⟩

theorem exists_act_decide (d : Debugger S) (t : ThreadId) (last : Answer) (c : ContextId)
    (ev : Hook.Event) : ∃ r, d.act t last (.decide c ev) = some r := by
  simp only [act]
  split
  · split <;> exact ⟨_, rfl⟩
  · exact ⟨_, rfl⟩

end Tally

theorem Announces.step (h : d.Announces t c ev) : ∃ d', d.step t = some d' := by
  obtain ⟨text, rest, -, -, hag, -⟩ := h
  exact step_of_act hag rfl

theorem Pauses.step (h : d.Pauses t c ev) : ∃ d', d.step t = some d' := by
  obtain ⟨rest, -, -, hth, -⟩ := h
  obtain ⟨⟨e, todo, ans⟩, hact⟩ := d.exists_act_decide t (d.thread t).answer c ev
  exact step_of_act (by rw [hth]) hact

theorem Refuses.step (h : d.Refuses t c ev) : ∃ d', d.step t = some d' := by
  obtain ⟨rest, -, hth, -⟩ := h
  obtain ⟨⟨e, todo, ans⟩, hact⟩ := d.exists_act_decide t (d.thread t).answer c ev
  exact step_of_act (by rw [hth]) hact

theorem not_told_of_not_mem (h : ¬ ∃ ev, .decide c ev ∈ x.agenda) : ¬ Told c x :=
  fun ht => h ht.decide_mem

theorem told_take_ne {turn : Turn} (hturn : turn ≠ .step u) :
    Told c ((d.take turn).thread u) ↔ Told c (d.thread u) := by
  rcases thread_take_ne d hturn with h | ⟨op, -, hid, h⟩ <;> rw [h]
  have hnew : ¬ Told c (⟨[.begin op], .none⟩ : Thread (Protocol.setup host sink)) :=
    not_told_of_not_mem (by simp)
  have hold : ¬ Told c (d.thread u) := not_told_of_not_mem (by rw [hid]; simp)
  exact ⟨fun h => absurd h hnew, fun h => absurd h hold⟩

open Classical in
/-- The notices of a step are as many as its pauses and refusals,
up to what the client then knows. -/
theorem Progress.count (h : d.Progress d' t c) :
    (if ∃ ev, d.Announces t c ev then 1 else 0) + (if Told c (d.thread t) then 1 else 0) =
      (if ∃ ev, d.Pauses t c ev then 1 else 0) + (if ∃ ev, d.Refuses t c ev then 1 else 0) +
        if Told c (d'.thread t) then 1 else 0 := by
  cases h with
  | tells hann hpause hrefuse hbefore hafter =>
    rw [if_pos hann, if_neg hpause, if_neg hrefuse, if_neg hbefore, if_pos hafter]
  | decides hann hdecides hbefore hafter =>
    rw [if_neg hann, if_pos hbefore, if_neg hafter]
    by_cases hrefuse : ∃ ev, d.Refuses t c ev
    · rw [if_pos hrefuse, if_neg fun hpause => hdecides.1 hpause hrefuse]
    · rw [if_neg hrefuse, if_pos (hdecides.2 hrefuse)]
  | neither hann hpause hrefuse htold =>
    rw [if_neg hann, if_neg hpause, if_neg hrefuse]
    simp only [htold]

/-- The client knows of a hit in a context if it knows of one of the only
thread that may have one. -/
theorem exists_told_iff (h : ∀ u, u ≠ t → ¬ Told c (d.thread u)) :
    (∃ u, Told c (d.thread u)) ↔ Told c (d.thread t) := by
  refine ⟨fun ⟨u, hu⟩ => ?_, fun hu => ⟨t, hu⟩⟩
  by_cases hut : u = t
  · exact hut ▸ hu
  · exact absurd hu (h u hut)

open Classical in
/-- **A step keeps the count.** -/
theorem Attended.count_step (ha : d.Attended σ f) (c : ContextId)
    (hs : (d.instant σ n).step t = some d') :
    (if ∃ ev, (d.instant σ n).Announces t c ev then 1 else 0) +
        (if ∃ u, Told c ((d.instant σ n).thread u) then 1 else 0) =
      (if ∃ ev, (d.instant σ n).Pauses t c ev then 1 else 0) +
        (if ∃ ev, (d.instant σ n).Refuses t c ev then 1 else 0) +
          if ∃ u, Told c (d'.thread u) then 1 else 0 := by
  obtain ⟨-, -, -, -, -, -, -, -, -, hothers⟩ := step_cases hs
  by_cases hother : ∃ u, u ≠ t ∧ Told c ((d.instant σ n).thread u)
  · -- the hits in the context are those of another thread
    obtain ⟨u, hu, htold⟩ := hother
    obtain ⟨ev, hmem⟩ := htold.decide_mem
    have hnone : ∀ ev', .decide c ev' ∉ ((d.instant σ n).thread t).agenda :=
      fun ev' hmem' => hu (ha.hit_unique hmem hmem')
    have hann : ¬ ∃ ev', (d.instant σ n).Announces t c ev' := fun ⟨ev', h⟩ => hnone ev' h.decide_mem
    have hpause : ¬ ∃ ev', (d.instant σ n).Pauses t c ev' := fun ⟨ev', h⟩ => hnone ev' h.decide_mem
    have hrefuse : ¬ ∃ ev', (d.instant σ n).Refuses t c ev' :=
      fun ⟨ev', h⟩ => hnone ev' h.decide_mem
    rw [if_neg hann, if_neg hpause, if_neg hrefuse, if_pos ⟨u, htold⟩,
      if_pos ⟨u, (hothers u hu).symm ▸ htold⟩]
  · have hbefore : ∀ u, u ≠ t → ¬ Told c ((d.instant σ n).thread u) :=
      fun u hu h => hother ⟨u, hu, h⟩
    have hafter : ∀ u, u ≠ t → ¬ Told c (d'.thread u) := fun u hu h =>
      hbefore u hu (hothers u hu ▸ h)
    simp only [exists_told_iff hbefore, exists_told_iff hafter]
    exact (ha.progress c hs).count

theorem told_take_of_stuck (hstuck : ∀ u, σ n = .step u → (d.instant σ n).step u = none)
    (u : ThreadId) :
    Told c ((d.instant σ (n + 1)).thread u) ↔ Told c ((d.instant σ n).thread u) := by
  by_cases hu : σ n = .step u
  · rw [instant_of_stuck hu (hstuck u hu)]
  · rw [instant_succ]
    exact told_take_ne hu

open Classical in
/-- **Count.** The notices for a context are as many as its pauses and the refusals of closed
contexts, and one more while a hit is between the notice and the decision. -/
theorem Attended.count (ha : d.Attended σ f) (c : ContextId) (n : Nat) :
    d.tally σ (fun d t => ∃ ev, d.Announces t c ev) n =
      d.tally σ (fun d t => ∃ ev, d.Pauses t c ev) n +
        d.tally σ (fun d t => ∃ ev, d.Refuses t c ev) n +
        if ∃ t, Told c ((d.instant σ n).thread t) then 1 else 0 := by
  induction n with
  | zero =>
    have hnot : ¬ ∃ t, Told c ((d.instant σ 0).thread t) := by
      rintro ⟨t, h⟩
      exact not_told_of_not_mem (by rw [instant_zero, ha.initial.idle t]; simp) h
    rw [if_neg hnot]
    rfl
  | succ n ih =>
    by_cases hstep : ∃ t d', σ n = .step t ∧ (d.instant σ n).step t = some d'
    · obtain ⟨t, d', hturn, hs⟩ := hstep
      have hcount := ha.count_step c hs
      rw [tally_succ_of_step hturn, tally_succ_of_step hturn, tally_succ_of_step hturn,
        instant_of_step hturn hs]
      omega
    · have hstuck : ∀ u, σ n = .step u → (d.instant σ n).step u = none := fun u hu =>
        Option.eq_none_iff_forall_not_mem.2 fun d' hd' => hstep ⟨u, d', hu, hd'⟩
      have hnone : ∀ E : ThreadId → Hook.Event → Prop,
          (∀ u ev, E u ev → ∃ d', (d.instant σ n).step u = some d') →
          ∀ u, σ n = .step u → ¬ ∃ ev, E u ev := by
        rintro E hE u hu ⟨ev, h⟩
        obtain ⟨d', hd'⟩ := hE u ev h
        exact hstep ⟨u, d', hu, hd'⟩
      rw [tally_succ_of_not (hnone _ fun u ev h => Announces.step h),
        tally_succ_of_not (hnone _ fun u ev h => Pauses.step h),
        tally_succ_of_not (hnone _ fun u ev h => Refuses.step h), ih]
      simp only [told_take_of_stuck hstuck]

/-! ## Between the notice and the decision -/

theorem holds_le_of_debt {S : Setup} {a : Action S} {m k : Debt} (h : a.debt m = some k)
    (ha : a ≠ .lock) : m.holds ≤ k.holds := by
  cases a with
  | lock => exact absurd rfl ha
  | unlock | enter | reloaded | decide | sweep | resumeEach =>
    cases h
    exact Nat.le_succ _
  | logic p =>
    obtain ⟨rfl, -⟩ := Debt.call_eq h
    exact Nat.le_refl _
  | resumeOne c =>
    obtain ⟨rfl, -⟩ := Debt.need_eq h
    exact Nat.le_refl _
  | _ =>
    cases h
    exact Nat.le_refl _

theorem holds_pos_of_decide {S : Setup} {l r : List (Action S)} {m : Debt}
    (h : owes (l ++ .decide c ev :: r) = some m) (hl : .lock ∉ l) : 0 < m.holds := by
  induction l generalizing m with
  | nil =>
    obtain ⟨k, -, hk⟩ := owes_cons.1 h
    cases hk
    exact Nat.succ_pos _
  | cons a l ih =>
    obtain ⟨k, hk, ha⟩ := owes_cons.1 h
    have hne : a ≠ .lock := by
      rintro rfl
      exact hl List.mem_cons_self
    exact Nat.lt_of_lt_of_le (ih hk fun hmem => hl (List.mem_cons_of_mem _ hmem))
      (holds_le_of_debt ha hne)

theorem Disciplined.holds_of_told (hd : d.Disciplined) (h : Told c (d.thread t)) : d.Holds t := by
  obtain ⟨ev, _, _, stage, rest, hs, hag⟩ := h
  obtain ⟨m, hm, hheld⟩ := hd t
  rw [hag] at hm
  unfold Holds
  rw [← hheld]
  exact holds_pos_of_decide hm (hs.lock_not_mem rfl)

theorem Leads.send {S : Setup} {d : Debugger S} {a : Action S} {more : List (Action S)}
    {text : String} (h : d.Leads a (.begin (.send text) :: more)) :
    ∃ p s last next, a = .logic p ∧ (S.logic.step s p last).2 = .use (.send text) next := by
  rcases h.begin List.mem_cons_self with
    ⟨x, name, -, hop⟩ | ⟨x, -, hop⟩ | ⟨code, x, report, -, hop⟩ | hlogic
  · cases hop
  · cases hop
  · cases hop
  · exact hlogic

theorem Announces.of_decide_mem {text : String} (ha : d.Attended σ f)
    (hag : ((d.instant σ n).thread t).agenda = .begin (.send text) :: rest)
    (hmem : .decide c ev ∈ rest) : (d.instant σ n).Announces t c ev := by
  have hdec : .decide c ev ∈ ((d.instant σ n).thread t).agenda := by
    rw [hag]
    exact List.mem_cons_of_mem _ hmem
  obtain ⟨y, stage, told, rest', hy, -, hs, hag', -⟩ := (ha.place n t).decide hdec
  have hsplit := hag.symm.trans hag'
  generalize ((d.instant σ n).thread t).answer = last at hs
  cases stage with
  | nil => exact absurd (List.cons_eq_cons.1 hsplit).1 (by simp)
  | cons a more =>
    obtain ⟨rfl, -⟩ := List.cons_eq_cons.1 hsplit
    cases hs with
    | telling b _ _ htext => exact ⟨text, rest, y, b, hag, hmem, hy, htext⟩

/-- **Every notice belongs to a hit.** Whenever the client logic tells the client of a pause, it is
for a hit of its thread. -/
theorem Attended.announces (ha : d.Attended σ f) {text : String} {h : Handle} {name : String}
    {b : Breakpoint} {e : Hook.Event} (htext : text = (Protocol.Notice.paused h name b e).json.text)
    (hag : ((d.instant σ n).thread t).agenda = .begin (.send text) :: rest)
    (hcall : ∃ p, .logic p ∈ rest) : ∃ c ev, (d.instant σ n).Announces t c ev := by
  suffices hmem : ∃ c ev, .decide c ev ∈ rest by
    obtain ⟨c, ev, hmem⟩ := hmem
    exact ⟨c, ev, .of_decide_mem ha hag hmem⟩
  induction n with
  | zero =>
    rw [instant_zero, ha.initial.idle t] at hag
    cases hag
  | succ n ih =>
    by_cases hturn : σ n = .step t
    · cases hs : (d.instant σ n).step t with
      | none =>
        have hn : d.instant σ (n + 1) = d.instant σ n := instant_of_stuck hturn hs
        rw [hn] at hag
        exact ih hag
      | some d' =>
        have hn : d.instant σ (n + 1) = d' := instant_of_step hturn hs
        obtain ⟨a, rest', e', todo, ans, hag', hact, -, hself, -⟩ := step_cases hs
        rw [hn, hself] at hag
        have hag : todo ++ rest' = .begin (.send text) :: rest := hag
        cases todo with
        | nil =>
          -- operations begin at the head of an agenda only
          have hp := ha.initial.pairwise_above (σ := σ) n t
          rw [hag'] at hp
          have habove := (List.pairwise_cons.1 hp).1 (.begin (.send text))
            (by rw [show rest' = _ from hag]; exact List.mem_cons_self)
          exact absurd habove (by simp [Action.above, Action.isAtomic])
        | cons b more =>
          obtain ⟨rfl, rfl⟩ := List.cons_eq_cons.1 hag
          obtain ⟨p, s, last, next, rfl, hu⟩ := (act_leads hact).send
          obtain ⟨x, m, ev, rfl⟩ := Protocol.step_tells hu htext
          obtain ⟨c, ev', hmem⟩ := (ha.place n t).decide_of_asked hag'
          exact ⟨c, ev', List.mem_append_right _ hmem⟩
    · rcases thread_take_ne (d.instant σ n) hturn with hthr | ⟨op, -, -, hthr⟩ <;>
        rw [instant_succ, hthr] at hag
      · exact ih hag
      · cases hag
        obtain ⟨p, hp⟩ := hcall
        exact absurd hp List.not_mem_nil

end Debugger

end ScriptDebug
