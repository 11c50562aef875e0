import Mathlib.Data.List.Sort
import ScriptDebug.Proofs.Sending
import ScriptDebug.Wire.Channel

/-!
# Frames of many threads

`Moves` lists what a turn of a channel can do. Only the thread that has the stream writes to it, and
it keeps the stream until its message has ended; so the bytes on the stream are those of one call
after the other, in the order in which the calls got the stream (`Kept`). What each call has put
there is the whole frame of its message or, where it failed, a part from the front (`Leaves`).
-/

namespace ScriptDebug.Wire

/-! ## One thread -/

namespace Writer

variable {x : Writer} {program left : List Bytes} {sent sent' : Nat → Bytes}
  {message : Bytes} {k : Nat} {s : Sending} {r : Except Failure Unit}

/-- The calls of a thread that have got the stream or were refused. -/
def begun (x : Writer) : Nat := x.ended.length + (if x.sending.isSome then 1 else 0)

theorem begun_of_idle (h : x.sending = none) : x.begun = x.ended.length := by
  simp [begun, h]

theorem begun_of_sending (h : x.sending = some s) : x.begun = x.ended.length + 1 := by
  simp [begun, h]

/-- **Sound.** How a thread stands that has this program,
where `sent` says what its calls have put on the stream. -/
structure Sound (program : List Bytes) (sent : Nat → Bytes) (x : Writer) : Prop where
  program : x.ended.map (·.1) ++ x.left = program
  ended : ∀ k m r, x.ended[k]? = some (m, r) → Leaves m r (sent k)
  current : ∀ s, x.sending = some s → ∃ m ms, x.left = m :: ms ∧ m.length < 0x100000000 ∧
    s.Behind m (sent x.ended.length)
  /-- A call that has not begun has put nothing there. -/
  untouched : ∀ k, x.begun ≤ k → sent k = []

theorem Sound.next (hs : x.Sound program sent) (hleft : x.left = message :: left) :
    program[x.ended.length]? = some message := by
  rw [← hs.program, hleft, List.getElem?_append_right (by simp)]
  simp

theorem Sound.concat (hs : x.Sound program sent) (hleft : x.left = message :: left)
    (hend : Leaves message r (sent x.ended.length)) :
    ({ left, ended := x.ended ++ [(message, r)] } : Writer).Sound program sent where
  program := by
    rw [← hs.program, hleft]
    simp
  ended k m r' h := by
    have h : (x.ended ++ [(message, r)])[k]? = some (m, r') := h
    rcases Nat.lt_or_ge k x.ended.length with hlt | hge
    · rw [List.getElem?_append_left hlt] at h
      exact hs.ended k m r' h
    · have hlt := (List.getElem?_eq_some_iff.1 h).1
      rw [List.length_append, List.length_singleton] at hlt
      obtain rfl : k = x.ended.length := by omega
      rw [List.getElem?_concat_length] at h
      obtain ⟨rfl, rfl⟩ := Prod.mk.inj (Option.some.inj h)
      exact hend
  current s h := nomatch h
  untouched k hk := by
    refine hs.untouched k ?_
    have hk : (x.ended ++ [(message, r)]).length ≤ k := hk
    rw [List.length_append, List.length_singleton] at hk
    unfold begun
    split <;> omega

theorem Sound.refuse (hs : x.Sound program sent) (hleft : x.left = message :: left)
    (hidle : x.sending = none) :
    ({ left, ended := x.ended ++ [(message, .error (.tooLarge message.length))] } : Writer).Sound
      program sent := by
  refine hs.concat hleft ?_
  rw [hs.untouched _ (Nat.le_of_eq (begun_of_idle hidle))]
  exact leaves_refused message

theorem Sound.take (hs : x.Sound program sent) (hleft : x.left = message :: left)
    (hidle : x.sending = none) (hfits : message.length < 0x100000000) :
    ({ x with sending := some (.parts [lengthBytes message.length, message]) } : Writer).Sound
      program sent where
  program := hs.program
  ended := hs.ended
  current s h := by
    obtain rfl := Option.some.inj h
    refine ⟨message, left, hleft, hfits, ?_⟩
    rw [hs.untouched _ (Nat.le_of_eq (begun_of_idle hidle))]
    exact behind_start message
  untouched k hk := by
    refine hs.untouched k ?_
    have hk : x.ended.length + 1 ≤ k := hk
    rw [begun_of_idle hidle]
    omega

theorem Sound.write (hs : x.Sound program sent) (hsending : x.sending = some s) {s' : Sending}
    (hgo : ∀ m, s.Behind m (sent x.ended.length) → s'.Behind m (sent' x.ended.length))
    (hsame : ∀ k, k ≠ x.ended.length → sent' k = sent k) :
    ({ x with sending := some s' } : Writer).Sound program sent' where
  program := hs.program
  ended k m r h := by
    have hlt := (List.getElem?_eq_some_iff.1 h).1
    rw [hsame k (Nat.ne_of_lt hlt)]
    exact hs.ended k m r h
  current q h := by
    obtain rfl := Option.some.inj h
    obtain ⟨m, ms, hleft, hfits, hbehind⟩ := hs.current s hsending
    exact ⟨m, ms, hleft, hfits, hgo m hbehind⟩
  untouched k hk := by
    have hk : x.ended.length + 1 ≤ k := hk
    rw [hsame k (by omega)]
    exact hs.untouched k (begun_of_sending hsending ▸ hk)

theorem Sound.release (hs : x.Sound program sent) (hleft : x.left = message :: left)
    (hsending : x.sending = some (.done r)) :
    ({ left, ended := x.ended ++ [(message, r)] } : Writer).Sound program sent := by
  obtain ⟨m, ms, hm, hfits, hbehind⟩ := hs.current _ hsending
  obtain ⟨rfl, -⟩ := List.cons.inj (hleft.symm.trans hm)
  exact hs.concat hleft (hbehind.leaves hfits)

/-- At any time a call has put a part from the front of its frame on the stream. -/
theorem Sound.part (hs : x.Sound program sent) (hm : program[k]? = some message) :
    sent k <+: frame message ∧ (0x100000000 ≤ message.length → sent k = []) := by
  rcases Nat.lt_or_ge k x.begun with hlt | hge
  · rcases Nat.lt_or_ge k x.ended.length with hended | hcurrent
    · obtain ⟨⟨m, r⟩, hget⟩ : ∃ e, x.ended[k]? = some e := ⟨_, List.getElem?_eq_getElem hended⟩
      have hleaves := hs.ended k m r hget
      obtain rfl : m = message := by
        rw [← hs.program, List.getElem?_append_left (by simpa using hended), List.getElem?_map,
          hget] at hm
        exact Option.some.inj hm
      exact ⟨hleaves.part, fun hlong => (hleaves.refused hlong).2⟩
    · cases hsending : x.sending with
      | none => exact absurd hlt (by rw [begun_of_idle hsending]; omega)
      | some s =>
        rw [begun_of_sending hsending] at hlt
        obtain rfl : k = x.ended.length := by omega
        obtain ⟨m, ms, hleft, hfits, hbehind⟩ := hs.current s hsending
        rw [hs.next hleft] at hm
        obtain rfl := Option.some.inj hm
        exact ⟨hbehind.part, fun hlong => absurd hfits (Nat.not_lt.2 hlong)⟩
  · rw [hs.untouched k hge]
    exact ⟨List.nil_prefix, fun _ => rfl⟩

end Writer

namespace Channel

variable {c c' : Channel} {t u : ThreadId} {k : Nat} {turn : Turn} {turns : List Turn}
  {message : Bytes} {left : List Bytes} {order : List (ThreadId × Nat)} {x : Writer}

/-! ## Threads -/

theorem writer_start (o : Outlet) (messages : List (List Bytes)) (t : ThreadId) :
    (start o messages).writer t = { left := (messages[t]?).getD [] } := by
  simp only [writer, start, List.getElem?_map]
  cases messages[t]? <;> rfl

theorem lt_length_of_left (h : (c.writer t).left = message :: left) : t < c.writers.length := by
  rcases Nat.lt_or_ge t c.writers.length with ht | ht
  · exact ht
  · simp [writer, List.getElem?_eq_none ht] at h

theorem writer_setWriter (h : t < c.writers.length) (outlet : Outlet) (lock : Option ThreadId)
    (x : Writer) (u : ThreadId) :
    ({ c with outlet, lock }.setWriter t x).writer u = if u = t then x else c.writer u := by
  by_cases hu : u = t
  · simp [writer, setWriter, hu, h]
  · simp [writer, setWriter, hu, List.getElem?_set_ne (Ne.symm hu)]

/-! ## What a turn does -/

/-- **Moves.** What a turn can do. -/
inductive Moves (c : Channel) : Turn → Channel → Prop
  | stay (turn : Turn) : Moves c turn c
  /-- A message that does not fit is refused. -/
  | refuse {t : ThreadId} {message : Bytes} {left : List Bytes}
      (hleft : (c.writer t).left = message :: left) (hidle : (c.writer t).sending = none)
      (hlong : 0x100000000 ≤ message.length) :
    Moves c (.step t) (c.setWriter t
      { left, ended := (c.writer t).ended ++ [(message, .error (.tooLarge message.length))] })
  /-- A thread takes the stream. -/
  | take {t : ThreadId} {message : Bytes} {left : List Bytes}
      (hleft : (c.writer t).left = message :: left) (hidle : (c.writer t).sending = none)
      (hfits : message.length < 0x100000000) (hfree : c.lock = none) :
    Moves c (.step t) ({ c with lock := some t }.setWriter t
      { c.writer t with sending := some (.parts [lengthBytes message.length, message]) })
  | write {t : ThreadId} {message : Bytes} {left ps : List Bytes}
      (hleft : (c.writer t).left = message :: left)
      (hsending : (c.writer t).sending = some (.parts ps)) :
    Moves c (.step t) ({ c with outlet := (Sending.advance c.outlet (.parts ps)).1 }.setWriter t
      { c.writer t with sending := some (Sending.advance c.outlet (.parts ps)).2 })
  /-- A thread whose message has ended gives the stream back. -/
  | release {t : ThreadId} {message : Bytes} {left : List Bytes} {r : Except Failure Unit}
      (hleft : (c.writer t).left = message :: left)
      (hsending : (c.writer t).sending = some (.done r)) :
    Moves c (.step t) ({ c with lock := none }.setWriter t
      { left, ended := (c.writer t).ended ++ [(message, r)] })
  | change (plan : Outlet) :
    Moves c (.change plan)
      { c with outlet := { plan with taken := c.outlet.taken, flushes := c.outlet.flushes } }

theorem take_moves (c : Channel) (turn : Turn) : c.Moves turn (c.take turn) := by
  cases turn with
  | change plan => exact .change plan
  | step t =>
    simp only [Channel.take, step]
    split
    · exact .stay _
    · rename_i message left hleft hidle
      rcases Nat.lt_or_ge message.length 0x100000000 with hfits | hlong
      · rw [start_of_fits hfits]
        simp only
        split
        · exact .stay _
        · rename_i hfree
          exact .take hleft hidle hfits (by simpa using hfree)
      · rw [start_of_long hlong]
        exact .refuse hleft hidle hlong
    · rename_i message left ps hleft hsending
      exact .write hleft hsending
    · rename_i message left r hleft hsending
      exact .release hleft hsending

/-! ## What a call puts on the stream -/

/-- Whether a turn is one of the `k`th call of a thread. -/
def isOf (c : Channel) (t : ThreadId) (k : Nat) : Turn → Bool
  | .step u => t == u && k == (c.writer t).ended.length
  | .change _ => false

/-- The bytes that a turn puts on the stream. -/
def puts (c : Channel) (turn : Turn) : Bytes :=
  (c.take turn).outlet.written.drop c.outlet.written.length

/-- The bytes of them that belong to the `k`th call of a thread. -/
def putsOf (c : Channel) (t : ThreadId) (k : Nat) (turn : Turn) : Bytes :=
  if c.isOf t k turn then c.puts turn else []

/-- **Emitted.** The bytes that the `k`th call of a thread puts on the stream in the
course of some turns. -/
def emitted (c : Channel) (t : ThreadId) (k : Nat) : List Turn → Bytes
  | [] => []
  | turn :: turns => c.putsOf t k turn ++ (c.take turn).emitted t k turns

theorem putsOf_of_quiet (h : (c.take turn).outlet.written = c.outlet.written) :
    c.putsOf t k turn = [] := by
  unfold putsOf puts
  rw [h, List.drop_length]
  exact ite_self _

/-! ## What every turn keeps -/

/-- **Kept.** What a channel keeps, where `sent` says what each call has put on the stream and
`order` names the calls that have got it, one after the other. -/
structure Kept (programs : ThreadId → List Bytes) (before : Bytes) (sent : ThreadId → Nat → Bytes)
    (order : List (ThreadId × Nat)) (c : Channel) : Prop where
  /-- The bytes on the stream are those of one call after the other. -/
  stream : c.outlet.written = before ++ order.flatMap fun call => sent call.1 call.2
  ordered : order.Pairwise fun a b => a.1 = b.1 → a.2 < b.2
  mem : ∀ t k, (t, k) ∈ order ↔ k < (c.writer t).begun ∧
    ∃ m, (programs t)[k]? = some m ∧ m.length < 0x100000000
  holder : ∀ t, (c.writer t).sending.isSome = true ↔ c.lock = some t
  /-- The thread that has the stream is the last one that got it. -/
  last : ∀ t, c.lock = some t → ∃ front, order = front ++ [(t, (c.writer t).ended.length)]
  sound : ∀ t, (c.writer t).Sound (programs t) (sent t)

variable {programs : ThreadId → List Bytes} {before : Bytes} {sent : ThreadId → Nat → Bytes}

/-- **The turn of one thread.** What has to be seen to of it; the other threads stay as they are. -/
theorem Kept.setWriter (hk : c.Kept programs before sent order) (ht : t < c.writers.length)
    {outlet : Outlet} {lock : Option ThreadId} {x : Writer} {sent' : ThreadId → Nat → Bytes}
    {order' : List (ThreadId × Nat)} (hsound : x.Sound (programs t) (sent' t))
    (hsame : ∀ u, u ≠ t → sent' u = sent u)
    (hstream : outlet.written = before ++ order'.flatMap fun call => sent' call.1 call.2)
    (hordered : order'.Pairwise fun a b => a.1 = b.1 → a.2 < b.2)
    (hmem : ∀ k, (t, k) ∈ order' ↔ k < x.begun ∧
      ∃ m, (programs t)[k]? = some m ∧ m.length < 0x100000000)
    (hothers : ∀ u k, u ≠ t → ((u, k) ∈ order' ↔ (u, k) ∈ order))
    (hholder : x.sending.isSome = true ↔ lock = some t)
    (hlock : ∀ u, u ≠ t → (lock = some u ↔ c.lock = some u))
    (hlast : lock = some t → ∃ front, order' = front ++ [(t, x.ended.length)])
    (hfixed : ∀ u, u ≠ t → lock = some u → order' = order) :
    ({ c with outlet, lock }.setWriter t x).Kept programs before sent' order' := by
  have hw := writer_setWriter ht outlet lock x
  refine ⟨hstream, hordered, fun u k => ?_, fun u => ?_, fun u hu => ?_, fun u => ?_⟩ <;>
    rw [hw] <;>
    split <;> rename_i hut
  · subst hut
    exact hmem k
  · rw [hothers u k hut]
    exact hk.mem u k
  · subst hut
    exact hholder
  · exact (hk.holder u).trans (hlock u hut).symm
  · subst hut
    exact hlast hu
  · rw [hfixed u hut hu]
    exact hk.last u ((hlock u hut).1 hu)
  · subst hut
    exact hsound
  · rw [hsame u hut]
    exact hk.sound u

/-- **A refused message** puts nothing on the stream, and does not wait for it. -/
theorem Kept.refuse (hk : c.Kept programs before sent order)
    (hleft : (c.writer t).left = message :: left) (hidle : (c.writer t).sending = none)
    (hlong : 0x100000000 ≤ message.length) :
    (c.setWriter t
      { left, ended := (c.writer t).ended ++ [(message, .error (.tooLarge message.length))] }).Kept
      programs before sent order := by
  have hnot : c.lock ≠ some t := fun h => by simpa [hidle] using (hk.holder t).2 h
  refine hk.setWriter (lt_length_of_left hleft) ((hk.sound t).refuse hleft hidle) (fun _ _ => rfl)
    hk.stream hk.ordered (fun k => ?_) (fun _ _ _ => Iff.rfl) ⟨fun h => (nomatch h),
      fun h => absurd h hnot⟩
    (fun _ _ => Iff.rfl) (fun h => absurd h hnot) (fun _ _ _ => rfl)
  -- the refused message is none of those that may get the stream
  rw [hk.mem, Writer.begun_of_idle hidle, Writer.begun_of_idle rfl, List.length_append,
    List.length_singleton]
  constructor
  · exact fun ⟨hlt, hm⟩ => ⟨Nat.lt_succ_of_lt hlt, hm⟩
  · rintro ⟨hlt, m, hm, hfits⟩
    refine ⟨Nat.lt_of_le_of_ne (Nat.le_of_lt_succ hlt) fun heq => ?_, m, hm, hfits⟩
    rw [heq, (hk.sound t).next hleft] at hm
    obtain rfl := Option.some.inj hm
    exact absurd hfits (Nat.not_lt.2 hlong)

/-- **A free stream** is taken by one thread. -/
theorem Kept.take (hk : c.Kept programs before sent order)
    (hleft : (c.writer t).left = message :: left) (hidle : (c.writer t).sending = none)
    (hfits : message.length < 0x100000000) (hfree : c.lock = none) :
    ({ c with lock := some t }.setWriter t
      { c.writer t with sending := some (.parts [lengthBytes message.length, message]) }).Kept
      programs before sent (order ++ [(t, (c.writer t).ended.length)]) := by
  have hbegun := Writer.begun_of_idle hidle
  refine hk.setWriter (lt_length_of_left hleft) ((hk.sound t).take hleft hidle hfits)
    (fun _ _ => rfl) ?_ ?_ (fun k => ?_) (fun u k hu => by simp [hu]) ⟨fun _ => rfl, fun _ => rfl⟩
    (fun u hu => ?_) (fun _ => ⟨order, rfl⟩) (fun u hu h => absurd (Option.some.inj h).symm hu)
  · rw [List.flatMap_append, List.flatMap_singleton, (hk.sound t).untouched _ (Nat.le_of_eq hbegun),
      List.append_nil]
    exact hk.stream
  · refine List.pairwise_append.2 ⟨hk.ordered, List.pairwise_singleton _ _, fun a ha b hb hab => ?_⟩
    obtain rfl := List.mem_singleton.1 hb
    have hlt := ((hk.mem a.1 a.2).1 ha).1
    rw [hab, hbegun] at hlt
    exact hlt
  · rw [List.mem_append, List.mem_singleton, hk.mem, hbegun, Writer.begun_of_sending rfl,
      Prod.mk.injEq]
    constructor
    · rintro (⟨hlt, hm⟩ | ⟨-, rfl⟩)
      · exact ⟨Nat.lt_succ_of_lt hlt, hm⟩
      · exact ⟨Nat.lt_succ_self _, message, (hk.sound t).next hleft, hfits⟩
    · rintro ⟨hlt, hm⟩
      rcases Nat.lt_or_eq_of_le (Nat.le_of_lt_succ hlt) with hlt | heq
      · exact .inl ⟨hlt, hm⟩
      · exact .inr ⟨rfl, heq⟩
  · rw [hfree]
    exact ⟨fun h => absurd (Option.some.inj h).symm hu, fun h => (nomatch h)⟩

/-- **The thread that has the stream** writes the bytes of its message behind
those of all other calls. -/
theorem Kept.write (hk : c.Kept programs before sent order)
    (hleft : (c.writer t).left = message :: left) {ps : List Bytes}
    (hsending : (c.writer t).sending = some (.parts ps)) {piece : Bytes} {s : Sending}
    {outlet : Outlet} (hwritten : outlet.written = c.outlet.written ++ piece)
    (hgo : ∀ m bytes, (Sending.parts ps).Behind m bytes → s.Behind m (bytes ++ piece)) :
    ({ c with outlet }.setWriter t { c.writer t with sending := some s }).Kept programs before
      (fun u k => sent u k ++ if u = t ∧ k = (c.writer t).ended.length then piece else [])
      order := by
  have hlock : c.lock = some t := (hk.holder t).1 (by rw [hsending]; rfl)
  obtain ⟨front, horder⟩ := hk.last t hlock
  have hsound : ({ c.writer t with sending := some s } : Writer).Sound (programs t) fun k =>
      sent t k ++ if t = t ∧ k = (c.writer t).ended.length then piece else [] := by
    refine (hk.sound t).write hsending (fun m h => ?_) fun k hne => by simp [hne]
    simpa using hgo m _ h
  refine hk.setWriter (lt_length_of_left hleft) hsound
    (fun u hu => by funext k; simp [hu]) ?_ hk.ordered
    (fun k => ?_) (fun _ _ _ => Iff.rfl) ⟨fun _ => hlock, fun _ => rfl⟩ (fun _ _ => Iff.rfl)
    (fun _ => ⟨front, horder⟩) (fun _ _ _ => rfl)
  · -- the call is the last one in the order, and stands there once
    have hfront : ∀ call ∈ front, ¬ (call.1 = t ∧ call.2 = (c.writer t).ended.length) := by
      rintro call hcall ⟨h1, h2⟩
      have hord := hk.ordered
      rw [horder] at hord
      have hlt := (List.pairwise_append.1 hord).2.2 call hcall _ List.mem_cons_self h1
      exact absurd h2 (Nat.ne_of_lt hlt)
    have hsame : front.flatMap (fun call => sent call.1 call.2 ++
        if call.1 = t ∧ call.2 = (c.writer t).ended.length then piece else []) =
        front.flatMap fun call => sent call.1 call.2 :=
      List.flatMap_congr fun call hcall => by simp [hfront call hcall]
    rw [hwritten, hk.stream, horder, List.flatMap_append, List.flatMap_append, hsame]
    simp
  · rw [hk.mem, Writer.begun_of_sending hsending, Writer.begun_of_sending rfl]

/-- **A message that has ended** frees the stream. -/
theorem Kept.release (hk : c.Kept programs before sent order)
    (hleft : (c.writer t).left = message :: left) {r : Except Failure Unit}
    (hsending : (c.writer t).sending = some (.done r)) :
    ({ c with lock := none }.setWriter t
      { left, ended := (c.writer t).ended ++ [(message, r)] }).Kept programs before sent order := by
  have hlock : c.lock = some t := (hk.holder t).1 (by rw [hsending]; rfl)
  refine hk.setWriter (lt_length_of_left hleft) ((hk.sound t).release hleft hsending)
    (fun _ _ => rfl) hk.stream hk.ordered (fun k => ?_) (fun _ _ _ => Iff.rfl)
    ⟨fun h => (nomatch h), fun h => (nomatch h)⟩
    (fun u hu => ?_) (fun h => nomatch h) (fun _ _ h => nomatch h)
  · rw [hk.mem, Writer.begun_of_sending hsending, Writer.begun_of_idle rfl, List.length_append,
      List.length_singleton]
  · rw [hlock]
    exact ⟨fun h => (nomatch h), fun h => absurd (Option.some.inj h).symm hu⟩

theorem Kept.change (hk : c.Kept programs before sent order) {outlet : Outlet}
    (h : outlet.written = c.outlet.written) :
    ({ c with outlet } : Channel).Kept programs before sent order where
  stream := h.trans hk.stream
  ordered := hk.ordered
  mem := hk.mem
  holder := hk.holder
  last := hk.last
  sound := hk.sound

theorem kept_start (o : Outlet) (messages : List (List Bytes)) :
    (start o messages).Kept (fun t => (messages[t]?).getD []) o.written (fun _ _ => []) [] := by
  refine ⟨by simp [start], List.Pairwise.nil, fun t k => ?_, fun t => ?_, fun t h => (nomatch h),
    fun t => ?_⟩ <;> rw [writer_start]
  · exact ⟨fun h => (nomatch h), fun h => absurd h.1 (Nat.not_lt_zero k)⟩
  · exact ⟨fun h => (nomatch h), fun h => (nomatch h)⟩
  · exact ⟨rfl, fun k m r h => (nomatch h), fun s h => (nomatch h), fun _ _ => rfl⟩

/-- **One turn** keeps all of it. -/
theorem Kept.next (hk : c.Kept programs before sent order) (turn : Turn) :
    ∃ order', (c.take turn).Kept programs before
      (fun t k => sent t k ++ c.putsOf t k turn) order' := by
  have hm := c.take_moves turn
  generalize hc : c.take turn = c' at hm ⊢
  have quiet : c'.outlet.written = c.outlet.written →
      (fun t k => sent t k ++ c.putsOf t k turn) = sent := by
    intro h
    funext t k
    rw [putsOf_of_quiet (hc ▸ h), List.append_nil]
  cases hm with
  | stay => exact ⟨order, (quiet rfl).symm ▸ hk⟩
  | refuse hleft hidle hlong => exact ⟨order, (quiet rfl).symm ▸ hk.refuse hleft hidle hlong⟩
  | take hleft hidle hfits hfree =>
    exact ⟨_, (quiet rfl).symm ▸ hk.take hleft hidle hfits hfree⟩
  | release hleft hsending => exact ⟨order, (quiet rfl).symm ▸ hk.release hleft hsending⟩
  | change plan => exact ⟨order, (quiet rfl).symm ▸ hk.change rfl⟩
  | @write t message left ps hleft hsending =>
    obtain ⟨m, ms, -, -, hbehind⟩ := (hk.sound t).current _ hsending
    obtain ⟨piece, hwritten, -⟩ := hbehind.advance c.outlet
    have hgo : ∀ m bytes, (Sending.parts ps).Behind m bytes →
        (Sending.advance c.outlet (.parts ps)).2.Behind m (bytes ++ piece) := by
      intro m bytes h
      obtain ⟨piece', hwritten', hgo⟩ := h.advance c.outlet
      obtain rfl := List.append_cancel_left (hwritten.symm.trans hwritten')
      exact hgo
    have hputs : c.puts (.step t) = piece := by
      unfold puts
      rw [hc]
      exact (congrArg (List.drop _) hwritten).trans List.drop_left
    have hsame : (fun u k => sent u k ++ c.putsOf u k (.step t)) = fun u k => sent u k ++
        if u = t ∧ k = (c.writer t).ended.length then piece else [] := by
      funext u k
      unfold putsOf isOf
      rw [hputs]
      by_cases hu : u = t
      · simp [hu]
      · simp [hu]
    rw [hsame]
    exact ⟨order, hk.write hleft hsending hwritten hgo⟩

/-- **A run** keeps all of it. -/
theorem Kept.run (hk : c.Kept programs before sent order) (turns : List Turn) :
    ∃ order', (c.takeAll turns).Kept programs before
      (fun t k => sent t k ++ c.emitted t k turns) order' := by
  induction turns generalizing c sent order with
  | nil =>
    refine ⟨order, ?_⟩
    simp only [emitted, List.append_nil]
    exact hk
  | cons turn turns ih =>
    obtain ⟨order', hnext⟩ := hk.next turn
    obtain ⟨last, hlast⟩ := ih hnext
    refine ⟨last, ?_⟩
    simp only [emitted, ← List.append_assoc]
    exact hlast

/-! ## Willing streams -/

/-- A turn that leaves a willing stream willing. -/
def Turn.Willing : Turn → Prop
  | .step _ => True
  | .change plan => plan.Willing

/-- **Served.** The stream is willing, and no call that fits has failed. -/
structure Served (c : Channel) : Prop where
  outlet : c.outlet.Willing
  sending : ∀ t s, (c.writer t).sending = some s → s.Unfailed
  ended : ∀ t m r, (m, r) ∈ (c.writer t).ended → m.length < 0x100000000 → r = .ok ()

theorem Served.setWriter (hs : c.Served) (ht : t < c.writers.length) {outlet : Outlet}
    {lock : Option ThreadId} {x : Writer} (houtlet : outlet.Willing)
    (hsending : ∀ s, x.sending = some s → s.Unfailed)
    (hended : ∀ m r, (m, r) ∈ x.ended → m.length < 0x100000000 → r = .ok ()) :
    ({ c with outlet, lock }.setWriter t x).Served := by
  have hw := writer_setWriter ht outlet lock x
  refine ⟨houtlet, fun u => ?_, fun u => ?_⟩ <;> rw [hw] <;> split
  · exact hsending
  · exact hs.sending u
  · exact hended
  · exact hs.ended u

theorem Served.next (hs : c.Served) (hturn : turn.Willing) : (c.take turn).Served := by
  have hconcat : ∀ t message r, (message.length < 0x100000000 → r = .ok ()) →
      ∀ m q, (m, q) ∈ (c.writer t).ended ++ [(message, r)] →
        m.length < 0x100000000 → q = .ok () := by
    intro t message r hr m q hmem
    rcases List.mem_append.1 hmem with hold | hnew
    · exact hs.ended t m q hold
    · obtain ⟨rfl, rfl⟩ := Prod.mk.inj (List.mem_singleton.1 hnew)
      exact hr
  have hm := c.take_moves turn
  generalize c.take turn = c' at hm ⊢
  cases hm with
  | stay => exact hs
  | refuse hleft hidle hlong =>
    exact hs.setWriter (lt_length_of_left hleft) hs.outlet (fun _ h => nomatch h)
      (hconcat _ _ _ fun hfits => absurd hfits (Nat.not_lt.2 hlong))
  | take hleft hidle hfits hfree =>
    refine hs.setWriter (lt_length_of_left hleft) hs.outlet (fun s h => ?_) (hs.ended _)
    obtain rfl := Option.some.inj h
    trivial
  | write hleft hsending =>
    obtain ⟨hwilling, hunfailed⟩ := hs.outlet.advance (hs.sending _ _ hsending)
    refine hs.setWriter (lt_length_of_left hleft) hwilling (fun s h => ?_) (hs.ended _)
    obtain rfl := Option.some.inj h
    exact hunfailed
  | release hleft hsending =>
    exact hs.setWriter (lt_length_of_left hleft) hs.outlet (fun _ h => nomatch h)
      (hconcat _ _ _ fun _ => hs.sending _ _ hsending)
  | change plan =>
    exact ⟨⟨hturn.planned, hturn.most, hturn.room, hturn.flushError⟩, hs.sending, hs.ended⟩

theorem Served.run (hs : c.Served) (hturns : ∀ turn ∈ turns, turn.Willing) :
    (c.takeAll turns).Served := by
  induction turns generalizing c with
  | nil => exact hs
  | cons turn turns ih =>
    exact ih (hs.next (hturns turn List.mem_cons_self)) fun t ht =>
      hturns t (List.mem_cons_of_mem turn ht)

theorem served_start {o : Outlet} (hw : o.Willing) (messages : List (List Bytes)) :
    (start o messages).Served where
  outlet := hw
  sending t s h := by
    rw [writer_start] at h
    cases h
  ended t m r h := by
    rw [writer_start] at h
    cases h

/-! ## All messages -/

/-- Calls in the order of their threads are, for each thread,
those of its program one after the other. -/
theorem map_snd_filter_eq_range {n : Nat} (hord : order.Pairwise fun a b => a.1 = b.1 → a.2 < b.2)
    (hmem : ∀ k, (t, k) ∈ order ↔ k < n) :
    (order.filter (·.1 == t)).map (·.2) = List.range n := by
  refine List.Pairwise.eq_of_mem_iff ?_ List.pairwise_lt_range fun k => ?_
  · rw [List.pairwise_map, List.pairwise_filter]
    refine hord.imp fun hab ha hb => hab ?_
    rw [beq_iff_eq.1 ha, beq_iff_eq.1 hb]
  · rw [List.mem_range, ← hmem]
    simp

/-- The thread of a call and the message that its program has there. -/
def messageOf (programs : ThreadId → List Bytes) (call : ThreadId × Nat) : ThreadId × Bytes :=
  (call.1, ((programs call.1)[call.2]?).getD [])

/-- The messages of all calls are, for each thread, its program. -/
theorem map_snd_filter_messageOf (hord : order.Pairwise fun a b => a.1 = b.1 → a.2 < b.2)
    (hmem : ∀ t k, (t, k) ∈ order ↔ k < (programs t).length) (t : ThreadId) :
    ((order.map (messageOf programs)).filter (·.1 == t)).map (·.2) = programs t := by
  have hown : (order.filter (·.1 == t)).map (fun call => (messageOf programs call).2) =
      ((order.filter (·.1 == t)).map (·.2)).map fun k => ((programs t)[k]?).getD [] := by
    rw [List.map_map]
    refine List.map_congr_left fun call h => ?_
    obtain rfl : call.1 = t := beq_iff_eq.1 (List.mem_filter.1 h).2
    rfl
  rw [List.filter_map, List.map_map]
  refine hown.trans ?_
  rw [map_snd_filter_eq_range hord (hmem t)]
  refine List.ext_getElem (by simp) fun i h₁ h₂ => ?_
  simp [h₂]

/-- **All well.** No message is left, and every call has ended well. -/
def AllWell (c : Channel) : Prop :=
  ∀ t, (c.writer t).left = [] ∧ ∀ e ∈ (c.writer t).ended, e.2 = .ok ()

theorem Kept.ended_of_allWell (hk : c.Kept programs before sent order) (hdone : c.AllWell)
    (t : ThreadId) : (c.writer t).ended.map (·.1) = programs t := by
  have hprogram := (hk.sound t).program
  rwa [(hdone t).1, List.append_nil] at hprogram

theorem Kept.idle_of_allWell (hk : c.Kept programs before sent order) (hdone : c.AllWell)
    (t : ThreadId) : (c.writer t).sending = none := by
  cases hs : (c.writer t).sending with
  | none => rfl
  | some s =>
    obtain ⟨m, ms, hleft, -⟩ := (hk.sound t).current s hs
    rw [(hdone t).1] at hleft
    cases hleft

theorem Kept.whole_of_allWell (hk : c.Kept programs before sent order) (hdone : c.AllWell)
    (hm : (programs t)[k]? = some message) :
    message.length < 0x100000000 ∧ sent t k = frame message := by
  rw [← hk.ended_of_allWell hdone, List.getElem?_map, Option.map_eq_some_iff] at hm
  obtain ⟨⟨m, r⟩, hget, rfl⟩ := hm
  have hleaves := (hk.sound t).ended k m r hget
  have hr : r = .ok () := (hdone t).2 _ (List.mem_of_getElem? hget)
  exact ⟨hleaves.fits hr, hleaves.whole hr⟩

theorem Kept.mem_of_allWell (hk : c.Kept programs before sent order) (hdone : c.AllWell) :
    (t, k) ∈ order ↔ k < (programs t).length := by
  have hlen : (c.writer t).ended.length = (programs t).length := by
    rw [← hk.ended_of_allWell hdone, List.length_map]
  rw [hk.mem, Writer.begun_of_idle (hk.idle_of_allWell hdone t), hlen]
  refine ⟨And.left, fun hlt => ?_⟩
  have hget := List.getElem?_eq_getElem hlt
  exact ⟨hlt, _, hget, (hk.whole_of_allWell hdone hget).1⟩

/-- When every call has ended well, the stream holds the frames of all messages. -/
theorem Kept.all_ended (hk : c.Kept programs before sent order) (hdone : c.AllWell) :
    ∃ calls : List (ThreadId × Bytes),
      (∀ t, (calls.filter (·.1 == t)).map (·.2) = programs t) ∧
      (∀ call ∈ calls, call.2.length < 0x100000000) ∧
      c.outlet.written = before ++ (calls.map (·.2)).flatMap frame := by
  have hwhole : ∀ call ∈ order, (messageOf programs call).2.length < 0x100000000 ∧
      sent call.1 call.2 = frame (messageOf programs call).2 := by
    intro call h
    have hlt := (hk.mem_of_allWell hdone).1 h
    have hget : (programs call.1)[call.2]? = some (messageOf programs call).2 := by
      simp [messageOf, hlt]
    exact hk.whole_of_allWell hdone hget
  refine ⟨order.map (messageOf programs),
    map_snd_filter_messageOf hk.ordered fun t k => hk.mem_of_allWell hdone, fun call h => ?_, ?_⟩
  · obtain ⟨call, hin, rfl⟩ := List.mem_map.1 h
    exact (hwhole call hin).1
  · rw [hk.stream, List.map_map, List.flatMap_map]
    congr 1
    exact List.flatMap_congr fun call h => (hwhole call h).2

/-- **Frames stay whole.** Threads write messages to one stream, in any order of turns, and the
stream may take each write in pieces, be interrupted and fail wherever it likes.

* What is on the stream is what one call after the other has put there, those of a thread in the
order of its program. * At any time a call has put a part from the front of its frame there; one
that has ended well, the whole frame; one whose message is too long, nothing, and it ends with that
error. * A stream that takes something of every write and never fails lets all other calls end well.
* Once all calls have ended well, the frames of all messages lie on the stream in an order that is
for each thread that of its program, and any reader of these bytes gets just these messages. -/
theorem frames_stay_whole (o : Outlet) (programs : List (List Bytes)) (turns : List Turn) :
    let c := (start o programs).takeAll turns
    let sent := fun t k => (start o programs).emitted t k turns
    (∃ order : List (ThreadId × Nat), order.Pairwise (fun a b => a.1 = b.1 → a.2 < b.2) ∧
      c.outlet.written = o.written ++ order.flatMap fun call => sent call.1 call.2) ∧
    (∀ t k m, ((programs[t]?).getD [])[k]? = some m →
      (∀ f, encode m = .ok f → sent t k <+: f) ∧ (0x100000000 ≤ m.length → sent t k = [])) ∧
    (∀ t k m r, (c.writer t).ended[k]? = some (m, r) →
      ((programs[t]?).getD [])[k]? = some m ∧ (r = .ok () → encode m = .ok (sent t k)) ∧
      (0x100000000 ≤ m.length → r = .error (.tooLarge m.length))) ∧
    (o.Willing → (∀ turn ∈ turns, turn.Willing) →
      ∀ t m r, (m, r) ∈ (c.writer t).ended → m.length < 0x100000000 → r = .ok ()) ∧
    ((∀ x ∈ c.writers, x.left = [] ∧ ∀ e ∈ x.ended, e.2 = .ok ()) →
      ∃ (calls : List (ThreadId × Bytes)) (frames : List Bytes),
        (∀ t, (calls.filter (·.1 == t)).map (·.2) = (programs[t]?).getD []) ∧
        (calls.map (·.2)).mapM encode = .ok frames ∧
        c.outlet.written = o.written ++ frames.flatten ∧
        ∀ ds, Steady ds → delivered ds = frames.flatten → ∀ n,
          (readMessage (afterReads ds n)).1 =
            match (calls.map (·.2))[n]? with
            | some m => .ok m
            | none => .error .closed) := by
  obtain ⟨order, hk⟩ := (kept_start o programs).run turns
  simp only [List.nil_append] at hk
  refine ⟨⟨order, hk.ordered, hk.stream⟩, fun t k m hm => ?_, fun t k m r hended => ?_,
    fun hw hturns t m r => ((served_start hw programs).run hturns).ended t m r, fun hdone => ?_⟩
  · obtain ⟨hpart, hlong⟩ := (hk.sound t).part hm
    refine ⟨fun f hf => ?_, hlong⟩
    obtain ⟨-, rfl⟩ := encode_eq_ok.1 hf
    exact hpart
  · have hleaves := (hk.sound t).ended k m r hended
    refine ⟨?_, fun hr => encode_eq_ok.2 ⟨hleaves.fits hr, hleaves.whole hr⟩,
      fun hlong => (hleaves.refused hlong).1⟩
    have hlt := (List.getElem?_eq_some_iff.1 hended).1
    rw [← (hk.sound t).program, List.getElem?_append_left (by simpa using hlt), List.getElem?_map,
      hended]
    rfl
  · have hall : ((start o programs).takeAll turns).AllWell := by
      intro t
      unfold writer
      cases hx : ((start o programs).takeAll turns).writers[t]? with
      | none => exact ⟨rfl, fun e he => nomatch he⟩
      | some x => exact hdone x (List.mem_of_getElem? hx)
    obtain ⟨calls, hcalls, hfits, hstream⟩ := hk.all_ended hall
    have hfits : ∀ m ∈ calls.map (·.2), m.length < 0x100000000 := by
      intro m hm
      obtain ⟨call, hin, rfl⟩ := List.mem_map.1 hm
      exact hfits call hin
    refine ⟨calls, (calls.map (·.2)).map frame, hcalls, mapM_encode hfits, ?_,
      fun ds hs hds n => ?_⟩
    · rw [← List.flatMap_def]
      exact hstream
    · rw [← List.flatMap_def] at hds
      exact hs.readMessage_frames hds hfits n

/-- A stream that takes at most three bytes a write and is interrupted at the third one. -/
def slow : Outlet where
  most := some 3
  planned := [.upTo 9, .upTo 9, .interrupted]

/-- Turns of two threads; the second one asks for the stream between the two parts of
the first one's frame. -/
def mixed : List Turn :=
  ([0, 1, 0, 0, 0, 1, 0, 0, 0, 1, 0, 0] ++ List.replicate 20 1).map Turn.step

/-- The stream is willing, every call ends well, and the three messages lie on it whole, those of
the second thread in their order. -/
theorem mixed_end_well :
    let c := (start slow [[[104, 105]], [[33], []]]).takeAll mixed
    slow.Willing ∧ (c.writer 1).ended = [([33], .ok ()), ([], .ok ())] ∧
    encode [33] = .ok ((start slow [[[104, 105]], [[33], []]]).emitted 1 0 mixed) ∧
    ∃ (calls : List (ThreadId × Bytes)) (frames : List Bytes),
      (calls.filter (·.1 == 0)).map (·.2) = [[104, 105]] ∧
      (calls.filter (·.1 == 1)).map (·.2) = [[33], []] ∧
      frames.flatten = [2, 0, 0, 0, 104, 105, 1, 0, 0, 0, 33, 0, 0, 0, 0] := by
  obtain ⟨-, -, hwell, -, hall⟩ := frames_stay_whole slow [[[104, 105]], [[33], []]] mixed
  obtain ⟨calls, frames, hcalls, -, hframes, -⟩ := hall (by decide +kernel)
  have hended : (((start slow [[[104, 105]], [[33], []]]).takeAll mixed).writer 1).ended =
      [([33], .ok ()), ([], .ok ())] := by decide +kernel
  have hwritten : ((start slow [[[104, 105]], [[33], []]]).takeAll mixed).outlet.written =
      [2, 0, 0, 0, 104, 105, 1, 0, 0, 0, 33, 0, 0, 0, 0] := by decide +kernel
  have hplanned : ∀ a ∈ slow.planned, a = .interrupted ∨ ∃ n, a = .upTo (n + 1) := by simp [slow]
  refine ⟨⟨hplanned, by decide, rfl, rfl⟩, hended, (hwell 1 0 [33] (.ok ()) ?_).2.1 rfl,
    calls, frames, hcalls 0, hcalls 1, (List.nil_append _).symm.trans (hframes.symm.trans hwritten)⟩
  rw [hended]
  rfl

end Channel

end ScriptDebug.Wire
