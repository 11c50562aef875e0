import ScriptDebug.Proofs.Listening
import ScriptDebug.Proofs.Unread

/-!
# The texts of a client

What a visit passes on of the bytes that arrive on its connection. Its thread reads frame after
frame; a frame that holds a text becomes a message to the client logic, any other one is dropped,
and at the first fatal failure the visit goes to its end.

1. The frames that a visit has read and those that are left are together the whole frames that
   arrive, and the texts of those it has read are what it has passed on (`Session`).
2. Its own steps keep this (`Session.read`, `Session.lose`, `Session.advance_other`), and so does
   all else that happens (`Session.next`), over a whole run (`Session.run`).
3. So at the end of the visit its texts, and nothing else, have been passed on (`texts_passed_on`).
-/

namespace ScriptDebug.Server

open Wire (Bytes arrived decode text? wholeFrames)

variable {host : Host} {logic : Logic} {s s' : Server host logic} {e : Event} {c : ConnectionId}
  {v : Visit} {t : ThreadId} {x : Connection}

/-! ## Texts that are passed on -/

/-- The text that an action is about to hand to the client logic. -/
def message? : Action (Server.setup host logic) → Option String
  | .begin (.message text) => some text
  | _ => none

/-- **Passes.** The texts that a visit passes on with an event: its thread has a message to deal
with where it had to read before. -/
def passes (s : Server host logic) (c : ConnectionId) (e : Event) : List String :=
  match s.visits[c]?, (s.step e).visits[c]? with
  | some ⟨.read, some t⟩, some ⟨.dispatch, _⟩ =>
    ((s.step e).debugger.thread t).agenda.filterMap message?
  | _, _ => []

/-- The texts that a visit passes on in the course of some events. -/
def passed (s : Server host logic) (c : ConnectionId) : List Event → List String
  | [] => []
  | e :: es => s.passes c e ++ (s.step e).passed c es

theorem passes_of_ne_read (hv : s.visits[c]? = some v) (h : v.stage ≠ .read) (e : Event) :
    s.passes c e = [] := by
  unfold passes
  rw [hv]
  split
  · rename_i hread _
    cases hread
    exact absurd rfl h
  · rfl

theorem passes_of_ne_dispatch (hv : (s.step e).visits[c]? = some v) (h : v.stage ≠ .dispatch) :
    s.passes c e = [] := by
  unfold passes
  rw [hv]
  split
  · rename_i _ hdispatch
    cases hdispatch
    exact absurd rfl h
  · rfl

/-! ## Sessions -/

/-- Whether a visit may still read from its connection, now or later. -/
def Stage.mayRead : Stage → Bool
  | .claim | .listen | .spawn | .read | .dispatch => true
  | _ => false

/-- **Session.** How a visit stands to the whole frames that arrive on its connection: which of them
it has read, which are left, and which texts it has passed on. -/
structure Session (s : Server host logic) (c : ConnectionId) (frames : List Bytes)
    (texts : List String) (v : Visit) (seen left : List Bytes) : Prop where
  visit : s.visits[c]? = some v
  frames : frames = seen ++ left
  texts : texts = seen.filterMap text?
  /-- A visit at the gate has no thread. -/
  gate : v.stage.atGate = true → v.thread = none
  /-- A visit that may read will find the frames that are left, -/
  reading : v.stage.mayRead = true → s.gate ≠ .closed → wholeFrames (s.slot.unread c) = left
  /-- and none after the end of the server. -/
  cut : v.stage.mayRead = true → s.gate = .closed → s.slot.unread c = []
  /-- A visit that has read and does not any more has left nothing, unless it was cut off. -/
  done : v.stage.mayRead = false → v.thread ≠ none → left = [] ∨ s.gate = .closed

variable {frames : List Bytes} {texts : List String} {seen left : List Bytes} {w : Visit}

theorem Session.proceed (hs : s.Session c frames texts v seen left)
    (hvisit : s'.visits[c]? = some w) (hgate : s'.gate = s.gate)
    (hat : w.stage.atGate = true → w.thread = none) (hunread : w.stage.mayRead = true →
      v.stage.mayRead = true ∧ s'.slot.unread c = s.slot.unread c)
    (hdone : w.stage.mayRead = false → w.thread ≠ none → v.stage.mayRead = false ∧
      v.thread ≠ none) :
    s'.Session c frames texts w seen left where
  visit := hvisit
  frames := hs.frames
  texts := hs.texts
  gate := hat
  reading h := by
    obtain ⟨hv, hsame⟩ := hunread h
    rw [hgate, hsame]
    exact hs.reading hv
  cut h := by
    obtain ⟨hv, hsame⟩ := hunread h
    rw [hgate, hsame]
    exact hs.cut hv
  done h ht := by
    obtain ⟨hv, hvt⟩ := hdone h ht
    rw [hgate]
    exact hs.done hv hvt

theorem Tidy.holder_of_mayRead (ht : s.Tidy) (hv : s.visits[c]? = some v)
    (h : v.stage.mayRead = true) (hgate : s.gate = .closing) : s.holder = some c := by
  have hat : v.stage.atGate = false := by
    refine Bool.eq_false_iff.2 fun hat => ?_
    rw [ht.opened c v hv hat] at hgate
    cases hgate
  have hholds : v.stage.holds = true := by
    cases hst : v.stage <;> rw [hst] at h hat <;>
      simp [Stage.mayRead, Stage.atGate] at h hat <;> rfl
  refine (ht.kept c v hv hholds).resolve_right fun hcl => ?_
  rw [hgate] at hcl
  cases hcl.1

theorem Session.stop (hs : s.Session c frames texts v seen left) (ht : s.Tidy)
    (hvisit : s.stop.visits[c]? = some v) : s.stop.Session c frames texts v seen left := by
  have hunread := unread_stop s c
  cases hgate : s.gate with
  | opened =>
    have hopen : s.stop.gate ≠ .closed := by
      unfold Server.stop
      rw [hgate]
      simp only
      split <;> simp [hgate]
    rw [if_neg (by simp [hgate])] at hunread
    have hno : s.gate ≠ .closed := by simp [hgate]
    refine ⟨hvisit, hs.frames, hs.texts, hs.gate, fun h _ => ?_, fun _ hcl => absurd hcl hopen,
      fun h hvt => .inl ((hs.done h hvt).resolve_right hno)⟩
    rw [hunread]
    exact hs.reading h hno
  | closing =>
    have hcl : s.stop.gate = .closed := by simp [Server.stop, hgate]
    refine ⟨hvisit, hs.frames, hs.texts, hs.gate, fun _ hopen => absurd hcl hopen, fun h _ => ?_,
      fun _ _ => .inr hcl⟩
    rw [hunread, if_pos ⟨hgate, ht.holder_of_mayRead hs.visit h hgate⟩]
  | closed =>
    have hsame : s.stop = s := by simp [Server.stop, hgate]
    rw [hsame]
    exact hs

theorem readNext_of_ok {text : String} (h : (s.slot.receive c).2 = .ok text) (t : ThreadId) :
    s.readNext c t =
      ((s.onSlot fun _ => (s.slot.receive c).1).callOn t (.message text)).goTo c .dispatch := by
  simp only [readNext, h]

theorem readNext_of_error {f : Wire.Failure} (h : (s.slot.receive c).2 = .error f) (t : ThreadId) :
    s.readNext c t =
      if f.isFatal then (s.onSlot fun _ => (s.slot.receive c).1).goTo c .release
      else s.onSlot fun _ => (s.slot.receive c).1 := by
  simp only [readNext, h]

theorem advance_read (hv : s.visits[c]? = some ⟨.read, some t⟩) (b : Bool) :
    s.advance c b = s.readNext c t := by
  unfold advance
  rw [hv]

theorem Session.decode_end (hs : s.Session c frames texts ⟨.read, some t⟩ seen left)
    (hend : left = [] ∨ s.gate = .closed) : ∃ e, decode (s.slot.unread c) = .error e := by
  by_cases hcl : s.gate = .closed
  · rw [hs.cut rfl hcl]
    exact ⟨_, rfl⟩
  · exact Wire.decode_of_wholeFrames_nil ((hs.reading rfl hcl).trans (hend.resolve_right hcl))

theorem Session.decode_next (hs : s.Session c frames texts ⟨.read, some t⟩ seen left) {m : Bytes}
    {more : List Bytes} (hleft : left = m :: more) (hgate : s.gate ≠ .closed) :
    ∃ used, decode (s.slot.unread c) = .ok (m, used) := by
  have hframes := (hs.reading rfl hgate).trans hleft
  cases hdecode : decode (s.slot.unread c) with
  | error e =>
    rw [Wire.wholeFrames_of_error hdecode] at hframes
    cases hframes
  | ok found =>
    obtain ⟨m', used⟩ := found
    rw [Wire.wholeFrames_of_ok hdecode] at hframes
    obtain ⟨rfl, -⟩ := List.cons.inj hframes
    exact ⟨used, rfl⟩

/-- **Without a whole frame** the visit goes to its end. -/
theorem Session.lose (hs : s.Session c frames texts ⟨.read, some t⟩ seen left)
    (hdecode : ∃ e, decode (s.slot.unread c) = .error e) (b : Bool) :
    s.passes c (.advance c b) = [] ∧
      (s.advance c b).Session c frames texts ⟨.release, some t⟩ seen left := by
  obtain ⟨e, hdecode⟩ := hdecode
  have hreceive := s.slot.receive_unread c
  rw [hdecode] at hreceive
  obtain ⟨f, hf, hfatal⟩ := hreceive
  have hadvance := (advance_read hs.visit b).trans (readNext_of_error hf t)
  rw [if_pos hfatal] at hadvance
  have hvisit : (s.advance c b).visits[c]? = some ⟨.release, some t⟩ := by
    rw [hadvance]
    exact modify_self (f := fun v => { v with stage := .release }) hs.visit
  refine ⟨passes_of_ne_dispatch hvisit (by simp), hvisit, hs.frames, hs.texts,
    fun h => (nomatch h), fun h => (nomatch h), fun h => (nomatch h), fun _ _ => ?_⟩
  rw [hadvance]
  by_cases hcl : s.gate = .closed
  · exact .inr hcl
  · exact .inl ((hs.reading rfl hcl).symm.trans (Wire.wholeFrames_of_error hdecode))

/-- **A whole frame** is read. If it holds a text, this is passed on; if not,
the visit reads on behind it. -/
theorem Session.read (hs : s.Session c frames texts ⟨.read, some t⟩ seen left) (hstaff : s.Staffed)
    {m : Bytes} {used : Nat} (hdecode : decode (s.slot.unread c) = .ok (m, used)) (b : Bool) :
    ∃ more, left = m :: more ∧ s.passes c (.advance c b) = (text? m).toList ∧
      (s.advance c b).Session c frames (texts ++ (text? m).toList)
        ⟨if (text? m).isSome then .dispatch else .read, some t⟩ (seen ++ [m]) more := by
  have hreceive := s.slot.receive_unread c
  rw [hdecode] at hreceive
  obtain ⟨hresult, hunread⟩ := hreceive
  have hopen : s.gate ≠ .closed := fun hcl => by
    rw [hs.cut rfl hcl] at hdecode
    cases hdecode
  have hleft : left = m :: wholeFrames ((s.slot.receive c).1.unread c) := by
    rw [← hs.reading rfl hopen, Wire.wholeFrames_of_ok hdecode, hunread]
  have hframes : frames = (seen ++ [m]) ++ wholeFrames ((s.slot.receive c).1.unread c) := by
    rw [hs.frames, hleft]
    simp
  have htexts : texts ++ (text? m).toList = (seen ++ [m]).filterMap text? := by
    rw [hs.texts, List.filterMap_append]
    cases h : text? m <;> simp [h]
  refine ⟨_, hleft, ?_⟩
  cases htext : text? m with
  | none =>
    rw [htext] at hresult htexts
    have hadvance := (advance_read hs.visit b).trans (readNext_of_error hresult t)
    have hvisit : (s.advance c b).visits[c]? = some ⟨.read, some t⟩ := by
      rw [hadvance]
      exact hs.visit
    refine ⟨passes_of_ne_dispatch hvisit (by simp), hvisit, hframes, htexts,
      fun h => (nomatch h), fun _ _ => ?_, fun _ hcl => ?_, fun h => (nomatch h)⟩
    · rw [hadvance]
      rfl
    · rw [hadvance] at hcl
      exact absurd hcl hopen
  | some text =>
    rw [htext] at hresult htexts
    have hadvance := (advance_read hs.visit b).trans (readNext_of_ok hresult t)
    have hvisit : (s.advance c b).visits[c]? = some ⟨.dispatch, some t⟩ := by
      rw [hadvance]
      exact modify_self (f := fun v => { v with stage := .dispatch }) hs.visit
    have hagenda : ((s.advance c b).debugger.thread t).agenda = [.begin (.message text)] := by
      rw [hadvance]
      exact congrArg Thread.agenda (Debugger.thread_call_self
        (d := (s.onSlot fun _ => (s.slot.receive c).1).debugger)
        (hstaff.hired c _ t hs.visit rfl) _)
    refine ⟨?_, hvisit, hframes, htexts, fun h => (nomatch h), fun _ _ => ?_, fun _ hcl => ?_,
      fun h => (nomatch h)⟩
    · unfold passes
      rw [hs.visit]
      simp only [step, hvisit, hagenda]
      rfl
    · rw [hadvance]
      rfl
    · rw [hadvance] at hcl
      exact absurd hcl hopen

theorem Session.advance_other (hs : s.Session c frames texts v seen left)
    (hv : v.stage ≠ .read) (b : Bool) :
    ∃ w, (s.advance c b).Session c frames texts w seen left := by
  have hstay : ∃ w, s.Session c frames texts w seen left := ⟨v, hs⟩
  have hvisit := hs.visit
  have hgoTo : ∀ (s' : Server host logic) (stage : Stage), s'.visits = s.visits →
      (s'.goTo c stage).visits[c]? = some { v with stage } := by
    intro s' stage hsame
    show (s'.visits.modify c _)[c]? = _
    rw [hsame]
    exact modify_self (f := fun v => { v with stage }) hvisit
  obtain ⟨stage, thread⟩ := v
  unfold advance
  rw [hvisit]
  cases stage with
  | claim =>
    have hclaim : (s.slot.claim c).1.connections = s.slot.connections := by
      unfold Slot.claim
      split <;> rfl
    simp only
    split <;> rename_i slot hslot
    · have hsame : slot.unread c = s.slot.unread c :=
        Slot.unread_congr (by rw [← hclaim, hslot])
      exact ⟨_, hs.proceed (hgoTo _ _ rfl) rfl (fun _ => hs.gate rfl) (fun _ => ⟨rfl, hsame⟩)
        fun h => nomatch h⟩
    · exact ⟨_, hs.proceed (hgoTo _ _ rfl) rfl (fun h => nomatch h) (fun h => nomatch h)
        fun _ hth => absurd (hs.gate rfl) hth⟩
  | listen =>
    exact ⟨_, hs.proceed (hgoTo _ _ rfl) rfl (fun _ => hs.gate rfl) (fun _ => ⟨rfl, rfl⟩)
      fun h => nomatch h⟩
  | spawn =>
    cases b with
    | true =>
      exact ⟨_, hs.proceed (modify_self hvisit) rfl (fun h => nomatch h) (fun _ => ⟨rfl, rfl⟩)
        fun h => nomatch h⟩
    | false =>
      exact ⟨_, hs.proceed (hgoTo _ _ rfl) rfl (fun h => nomatch h) (fun h => nomatch h)
        fun _ hth => absurd (hs.gate rfl) hth⟩
  | read => exact absurd rfl hv
  | dispatch =>
    cases thread with
    | none => exact hstay
    | some t =>
      simp only
      split
      · exact ⟨_, hs.proceed (hgoTo _ _ rfl) rfl (fun h => nomatch h) (fun _ => ⟨rfl, rfl⟩)
          fun h => nomatch h⟩
      · exact hstay
  | release | shut =>
    exact ⟨_, hs.proceed (hgoTo _ _ rfl) rfl (fun h => nomatch h) (fun h => nomatch h)
      fun _ hth => ⟨rfl, hth⟩⟩
  | quiet =>
    cases thread with
    | none => exact hstay
    | some t =>
      exact ⟨_, hs.proceed (hgoTo _ _ rfl) rfl (fun h => nomatch h) (fun h => nomatch h)
        fun _ hth => ⟨rfl, hth⟩⟩
  | sweep =>
    cases thread with
    | none => exact hstay
    | some t =>
      simp only
      split
      · exact ⟨_, hs.proceed (hgoTo _ _ rfl) rfl (fun h => nomatch h) (fun h => nomatch h)
          fun _ hth => ⟨rfl, hth⟩⟩
      · exact hstay
  | _ => exact hstay

/-- **One event.** What is passed on keeps up with what is read. -/
theorem Session.next (hs : s.Session c frames texts v seen left) (ht : s.Tidy) (hstaff : s.Staffed)
    (hc : c ≠ s.slot.connections.length) (e : Event) :
    ∃ w seen' left', (s.step e).Session c frames (texts ++ s.passes c e) w seen' left' := by
  by_cases he : ∃ b, e = .advance c b
  · obtain ⟨b, rfl⟩ := he
    by_cases hv : v.stage = .read
    · obtain ⟨stage, thread⟩ := v
      obtain rfl : stage = .read := hv
      cases thread with
      | none =>
        -- a visit without a thread does not read
        have hstay : s.advance c b = s := by
          unfold advance
          rw [hs.visit]
        refine ⟨⟨.read, none⟩, seen, left, ?_⟩
        show (s.advance c b).Session c frames _ _ _ _
        rw [passes_of_ne_dispatch (v := ⟨.read, none⟩)
          (by rw [step, hstay]; exact hs.visit) (by simp), List.append_nil, hstay]
        exact hs
      | some t =>
        cases hdecode : decode (s.slot.unread c) with
        | error f =>
          obtain ⟨hpasses, hlose⟩ := hs.lose ⟨f, hdecode⟩ b
          rw [hpasses, List.append_nil]
          exact ⟨_, seen, left, hlose⟩
        | ok found =>
          obtain ⟨m, used⟩ := found
          obtain ⟨more, -, hpasses, hread⟩ := hs.read hstaff hdecode b
          rw [hpasses]
          exact ⟨_, seen ++ [m], more, hread⟩
    · obtain ⟨w, hw⟩ := hs.advance_other hv b
      rw [passes_of_ne_read hs.visit hv, List.append_nil]
      exact ⟨w, seen, left, hw⟩
  · have hne : ∀ b, e ≠ .advance c b := fun b h => he ⟨b, h⟩
    have hvisit := visit_step_ne hne hs.visit
    have hpasses : s.passes c e = [] := by
      by_cases hv : v.stage = .read
      · exact passes_of_ne_dispatch hvisit (by simp [hv])
      · exact passes_of_ne_read hs.visit hv e
    rw [hpasses, List.append_nil]
    by_cases hstop : e = .stop
    · subst hstop
      exact ⟨v, seen, left, hs.stop ht hvisit⟩
    · exact ⟨v, seen, left, hs.proceed hvisit (gate_step hstop) hs.gate
        (fun h => ⟨h, unread_step ht hc hne hstop⟩) fun h hth => ⟨h, hth⟩⟩

/-! ## Runs -/

/-- **A session begins** as a connection comes in: all frames are left. -/
theorem Session.start (hp : s.Paired) (hgate : s.gate = .opened) (hfree : s.isAdmitting = false)
    (hopen : x.shut = false) :
    (s.step (.accept x)).Session s.visits.length (wholeFrames (arrived x.inlet)) [] {} []
      (wholeFrames (arrived x.inlet)) := by
  have haccept : s.step (.accept x) =
      { (s.onSlot fun slot => (slot.arrive x).1) with visits := s.visits ++ [{}] } := by
    simp only [step, accept]
    exact if_pos ⟨hgate, by simp [hfree]⟩
  have hunread : (s.step (.accept x)).slot.unread s.visits.length = arrived x.inlet := by
    rw [haccept]
    refine (Slot.unread_arrive s.slot x _).trans ((if_pos hp.symm).trans ?_)
    simp [Connection.unread, hopen]
  refine ⟨?_, rfl, rfl, fun _ => rfl, fun _ _ => by rw [hunread], fun _ hcl => ?_, fun h => ?_⟩
  · rw [haccept]
    exact List.getElem?_concat_length
  · rw [gate_step (by simp), hgate] at hcl
    cases hcl
  · cases h

theorem Session.run (hs : s.Session c frames texts v seen left) (ht : s.Tidy) (hstaff : s.Staffed)
    (hp : s.Paired) (es : List Event) :
    ∃ w seen' left', (s.run es).Session c frames (texts ++ s.passed c es) w seen' left' := by
  induction es generalizing s texts v seen left with
  | nil => exact ⟨v, seen, left, by rw [passed, List.append_nil]; exact hs⟩
  | cons e es ih =>
    have hc : c ≠ s.slot.connections.length := by
      rw [hp]
      exact Nat.ne_of_lt (List.getElem?_eq_some_iff.1 hs.visit).1
    have hm := step_moves s e
    obtain ⟨w, seen', left', hnext⟩ := hs.next ht hstaff hc e
    obtain ⟨w', last, rest, hrun⟩ := ih hnext (ht.moves hm) (hstaff.moves hm) (hp.next ht e)
    refine ⟨w', last, rest, ?_⟩
    rw [passed, ← List.append_assoc]
    exact hrun

/-- **Vacant.** A server that no client has come to yet. -/
structure Vacant (s : Server host logic) : Prop where
  visits : s.visits = []
  holder : s.holder = none
  connections : s.slot.connections = []

theorem Vacant.run (h : s.Vacant) (es : List Event) :
    (s.run es).Tidy ∧ (s.run es).Staffed ∧ (s.run es).Paired := by
  have h0 : s.Tidy ∧ s.Staffed ∧ s.Paired := by
    refine ⟨tidy_of_no_visits h.visits h.holder, staffed_of_no_visits h.visits, ?_⟩
    rw [Paired, h.visits, h.connections]
    rfl
  refine run_invariant (P := fun _ s => s.Tidy ∧ s.Staffed ∧ s.Paired) h0 fun pre e _ _ h => ?_
  obtain ⟨ht, hstaff, hp⟩ := h
  have hm := step_moves (s.run pre) e
  exact ⟨ht.moves hm, hstaff.moves hm, hp.next ht e⟩

/-- **Just the texts.** A connection comes in, and whatever happens from then on, its visit has read
the first of the whole frames that arrive, in their order, and has passed on just those of them that
are texts. Where it reads next, it takes the next frame: it passes it on if it is a text, and reads
on behind it if not; and it goes to its end exactly if no whole frame is left, or the server has
come to its own end. So a visit that reads no more has left no frame, but for the end of the
server. -/
theorem texts_passed_on (h : s.Vacant) (pre post : List Event) (x : Connection)
    (hopen : x.shut = false) (hgate : (s.run pre).gate = .opened)
    (hfree : (s.run pre).isAdmitting = false) :
    let c := (s.run pre).visits.length
    let s₁ := (s.run pre).step (.accept x)
    let s₂ := s₁.run post
    ∃ (v : Visit) (seen left : List Bytes), s₂.visits[c]? = some v ∧
      wholeFrames (arrived x.inlet) = seen ++ left ∧
      (s₁.passed c post).map Wire.ofText = seen.filter Wire.isText ∧
      (v.stage.mayRead = false → v.thread ≠ none → left = [] ∨ s₂.gate = .closed) ∧
      ∀ t b, v = ⟨.read, some t⟩ →
        (left = [] ∨ s₂.gate = .closed →
          (s₂.step (.advance c b)).visits[c]? = some ⟨.release, some t⟩ ∧
          s₂.passes c (.advance c b) = []) ∧
        ∀ m more, left = m :: more → s₂.gate ≠ .closed →
          (s₂.step (.advance c b)).visits[c]? =
            some ⟨if Wire.isText m then .dispatch else .read, some t⟩ ∧
          (s₂.passes c (.advance c b)).map Wire.ofText = [m].filter Wire.isText := by
  intro c s₁ s₂
  obtain ⟨ht, hstaff, hp⟩ := h.run pre
  have hm := step_moves (s.run pre) (.accept x)
  have hstart : s₁.Session c (wholeFrames (arrived x.inlet)) [] {} []
      (wholeFrames (arrived x.inlet)) :=
    Session.start hp hgate hfree hopen
  obtain ⟨v, seen, left, hs⟩ := hstart.run (ht.moves hm) (hstaff.moves hm) (hp.next ht _) post
  have hstaff₂ : s₂.Staffed := by
    have hrun : s.run (pre ++ .accept x :: post) = s₂ := run_append s pre (.accept x :: post)
    exact hrun ▸ (h.run (pre ++ .accept x :: post)).2.1
  refine ⟨v, seen, left, hs.visit, hs.frames, ?_, hs.done, ?_⟩
  · rw [← List.nil_append (s₁.passed c post), hs.texts, Wire.map_ofText_filterMap]
  rintro t b rfl
  refine ⟨fun hend => ?_, fun m more hleft hgate => ?_⟩
  · obtain ⟨hpasses, hlose⟩ := hs.lose (hs.decode_end hend) b
    exact ⟨hlose.visit, hpasses⟩
  · obtain ⟨used, hdecode⟩ := hs.decode_next hleft hgate
    obtain ⟨_, _, hpasses, hread⟩ := hs.read hstaff₂ hdecode b
    refine ⟨Wire.isSome_text? m ▸ hread.visit, ?_⟩
    rw [hpasses, ← Wire.map_ofText_filterMap]
    cases htext : text? m <;> simp [htext]

end ScriptDebug.Server

namespace ScriptDebug.Rehearsal

open Server (Connection Event Vacant)

theorem idleServer_vacant : idleServer.Vacant := ⟨rfl, rfl, rfl⟩

/-- A client that sends a text, a message that is none, and a text again, in pieces, before its
stream fails in the middle of a frame. -/
def mixedClient : Connection where
  inlet := [.data (Wire.frame (Wire.ofText "{}") ++ Wire.frame [255]) 3, .interrupted,
    .data (Wire.frame (Wire.ofText "[]") ++ [9]) 1, .failure "reset"]

/-- Its visit, to the end of its loop. -/
def mixedVisit : List Event :=
  .replicate 4 (.advance 0 true) ++ .replicate 12 (.turn (.step 0)) ++
    .replicate 3 (.advance 0 true) ++
    .replicate 12 (.turn (.step 0)) ++ .replicate 2 (.advance 0 true)

/-- The two texts are passed on, the message between them is dropped, and nothing is left. -/
theorem mixedClient_texts :
    (idleServer.step (.accept mixedClient)).passed 0 mixedVisit = ["{}", "[]"] ∧
    ((Wire.wholeFrames (Wire.arrived mixedClient.inlet)).filter Wire.isText) =
      ["{}", "[]"].map Wire.ofText := by
  obtain ⟨hpassed, hend, hgate⟩ :
      (idleServer.step (.accept mixedClient)).passed 0 mixedVisit = ["{}", "[]"] ∧
      ((idleServer.step (.accept mixedClient)).run mixedVisit).visits[0]? =
        some ⟨.release, some 0⟩ ∧
      ((idleServer.step (.accept mixedClient)).run mixedVisit).gate = .opened := by
    decide +kernel
  obtain ⟨v, seen, left, hv, hframes, htexts, hdone, -⟩ :=
    Server.texts_passed_on idleServer_vacant [] mixedVisit mixedClient rfl rfl rfl
  obtain rfl := Option.some.inj (hend.symm.trans hv)
  have hleft : left = [] := by
    refine (hdone rfl (by simp)).resolve_right fun hcl => ?_
    have hcl : ((idleServer.step (.accept mixedClient)).run mixedVisit).gate = .closed := hcl
    rw [hgate] at hcl
    cases hcl
  refine ⟨hpassed, ?_⟩
  rw [hframes, hleft, List.append_nil, ← htexts]
  exact congrArg (List.map Wire.ofText) hpassed

end ScriptDebug.Rehearsal
