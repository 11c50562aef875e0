import ScriptDebug.Proofs.Listening
import ScriptDebug.Proofs.Sending

/-!
# Messages behind a failed one

A message that fails leaves a part of its frame on the stream (`Leaves`), and the client is in the
middle of a frame. The slot tells of the failure, but keeps the client, and the next message goes to
the same stream right behind that part.

1. Each message leaves its own piece, and the client stays (`Serves.sendAll`).
2. Up to the first failure the client reads what was sent (`frames_until_failure`).
3. Behind it the next frame fills up the one that was cut off, and the client may read a message
   that nobody has sent (`frames_mixed`); so it goes when the client logic fails for such a failure
   and the notice of this is sent (`notice_in_frame`).
-/

namespace ScriptDebug.Server

open Wire (Bytes Leaves frame ofText wholeFrames)

variable {s : Slot} {c : ConnectionId} {x : Connection} {texts : List String}

/-! ## Sent messages -/

/-- **Sent.** A text that was sent, what came of it, and the bytes it has put on the stream. -/
structure Sent where
  text : String
  result : Except Wire.Failure Unit
  piece : Bytes

/-- What the slot says of a text that was sent. -/
def Sent.told (x : Sent) : Except SinkFailure Unit :=
  x.result.mapError fun e => .transport e.message

/-- The bytes are those that a message leaves that ends so. -/
def Sent.Left (x : Sent) : Prop := Leaves (ofText x.text) x.result x.piece

theorem Sent.told_eq_ok {x : Sent} : x.told = .ok () ↔ x.result = .ok () := by
  unfold told
  cases x.result with
  | error e => exact ⟨fun h => (nomatch h), fun h => (nomatch h)⟩
  | ok u => exact ⟨fun _ => rfl, fun _ => rfl⟩

/-- Send one text after the other. -/
def Slot.sendAll (s : Slot) : List String → Slot × List (Except SinkFailure Unit)
  | [] => (s, [])
  | text :: texts =>
    let (s, r) := s.send text
    let (s, rs) := s.sendAll texts
    (s, r :: rs)

/-! ## The client stays -/

/-- **Serves.** The slot sends to this connection, which is not shut down. -/
structure Slot.Serves (s : Slot) (c : ConnectionId) (x : Connection) : Prop where
  holder : s.holder = some c
  connection : s.connections[c]? = some x
  opened : x.shut = false

/-- **One text** leaves its piece on the stream of the client, whatever was left there before. -/
theorem Slot.Serves.send (hs : s.Serves c x) (text : String) :
    ∃ (y : Connection) (one : Sent), (s.send text).1.Serves c y ∧ one.text = text ∧
      (s.send text).2 = one.told ∧ y.outlet.written = x.outlet.written ++ one.piece ∧ one.Left := by
  have hlt := (List.getElem?_eq_some_iff.1 hs.connection).1
  have hset : ∀ y : Connection, (s.connections.set c y)[c]? = some y := fun y => by simp [hlt]
  have hsend : (x.send (ofText text)).1.shut = false ∧ ∃ piece,
      (x.send (ofText text)).1.outlet.written = x.outlet.written ++ piece ∧
        Leaves (ofText text) (x.send (ofText text)).2 piece := by
    simp only [Connection.send, Wire.encodeLength, hs.opened]
    by_cases hfits : (ofText text).length < 0x100000000
    · simp only [if_pos hfits, Bool.false_eq_true, if_false]
      exact ⟨trivial, Wire.writeMessage_leaves x.outlet (ofText text)⟩
    · simp only [if_neg hfits]
      exact ⟨hs.opened, [], (List.append_nil _).symm, Wire.leaves_refused (ofText text)⟩
  obtain ⟨hopen, piece, hwritten, hleaves⟩ := hsend
  simp only [Slot.send, hs.holder, hs.connection]
  exact ⟨_, ⟨text, _, piece⟩, ⟨rfl, hset _, hopen⟩, rfl, rfl, hwritten, hleaves⟩

/-- **All texts** leave their pieces on the stream of the client, one behind the other, and the slot
keeps the client whatever came of them. -/
theorem Slot.Serves.sendAll (hs : s.Serves c x) (texts : List String) :
    ∃ (y : Connection) (all : List Sent), (s.sendAll texts).1.Serves c y ∧
      all.map (·.text) = texts ∧ (s.sendAll texts).2 = all.map (·.told) ∧
      y.outlet.written = x.outlet.written ++ all.flatMap (·.piece) ∧ ∀ one ∈ all, one.Left := by
  induction texts generalizing s x with
  | nil => exact ⟨x, [], hs, rfl, rfl, (List.append_nil _).symm, fun one h => nomatch h⟩
  | cons text texts ih =>
    obtain ⟨y, one, hy, htext, htold, hwritten, hleft⟩ := hs.send text
    obtain ⟨z, all, hz, htexts, hall, hmore, hrest⟩ := ih hy
    refine ⟨z, one :: all, hz, ?_, ?_, ?_, fun a ha => ?_⟩
    · rw [List.map_cons, htext, htexts]
    · rw [List.map_cons, ← htold, ← hall]
      rfl
    · rw [hmore, hwritten, List.append_assoc, List.flatMap_cons]
    · rcases List.mem_cons.1 ha with rfl | ha
      · exact hleft
      · exact hrest a ha

/-! ## What the client reads -/

theorem Sent.Left.whole {one : Sent} (hleft : one.Left) (hok : one.result = .ok ()) :
    (ofText one.text).length < 0x100000000 ∧ one.piece = frame (ofText one.text) :=
  ⟨Leaves.fits hleft hok, Leaves.whole hleft hok⟩

/-- What any one message leaves is its frame, or is decoded to nothing. -/
theorem Sent.Left.wholeFrames {one : Sent} (hleft : one.Left) :
    Wire.wholeFrames one.piece <+: [ofText one.text] := by
  rcases Nat.lt_or_ge (ofText one.text).length 0x100000000 with hfits | hlong
  · by_cases hwhole : one.piece = frame (ofText one.text)
    · have hmessages : ∀ m ∈ [ofText one.text], m.length < 0x100000000 := by simpa using hfits
      have hone := Wire.wholeFrames_frames hmessages []
      simp only [List.flatMap_singleton, List.append_nil, Wire.wholeFrames_nil] at hone
      simp only [hwhole, hone, List.prefix_rfl]
    · rw [Wire.wholeFrames_of_cut hfits (Leaves.part hleft) hwhole]
      exact List.nil_prefix
  · rw [(Leaves.refused hleft hlong).2, Wire.wholeFrames_nil]
    exact List.nil_prefix

/-- **Until the first failure,** and as long as the stream takes nothing behind it, the client reads
messages that were sent, in their order. -/
theorem frames_until_failure {front more : List Sent} {one : Sent} (hfront : ∀ a ∈ front, a.Left)
    (hok : ∀ a ∈ front, a.result = .ok ()) (hone : one.Left) (hmore : ∀ a ∈ more, a.piece = []) :
    wholeFrames ((front ++ one :: more).flatMap (·.piece)) <+:
      (front ++ [one]).map fun a => ofText a.text := by
  have hpieces : front.flatMap (·.piece) = (front.map fun a => ofText a.text).flatMap frame := by
    rw [List.flatMap_map]
    exact List.flatMap_congr fun a ha => ((hfront a ha).whole (hok a ha)).2
  have hfits : ∀ m ∈ front.map fun a => ofText a.text, m.length < 0x100000000 := by
    intro m hm
    obtain ⟨a, ha, rfl⟩ := List.mem_map.1 hm
    exact ((hfront a ha).whole (hok a ha)).1
  rw [List.flatMap_append, hpieces, List.flatMap_cons, List.flatMap_eq_nil_iff.2 hmore,
    List.append_nil, Wire.wholeFrames_frames hfits, List.map_append]
  exact (List.prefix_append_right_inj _).2 hone.wholeFrames

/-- **The slot sends on.** Whatever comes of the texts that are sent to a client, the slot keeps it.
Each text puts a part from the front of its frame on the stream, behind all that is there, and the
whole frame if it is told to be sent. The frames on the stream are those of the first texts as long
as the stream takes nothing behind the first failure. -/
theorem slot_sends_on (hs : s.Serves c x) (texts : List String) :
    ∃ (y : Connection) (all : List Sent), (s.sendAll texts).1.Serves c y ∧
      all.map (·.text) = texts ∧ (s.sendAll texts).2 = all.map (·.told) ∧
      y.outlet.written = x.outlet.written ++ all.flatMap (·.piece) ∧
      (∀ one ∈ all, one.piece <+: frame (ofText one.text) ∧
        (one.told = .ok () → one.piece = frame (ofText one.text))) ∧
      ∀ front one more rest, all = front ++ one :: more ++ rest → (∀ a ∈ front, a.told = .ok ()) →
        (∀ a ∈ more, a.piece = []) →
        wholeFrames ((front ++ one :: more).flatMap (·.piece)) <+: texts.map ofText := by
  obtain ⟨y, all, hy, htexts, htold, hwritten, hleft⟩ := hs.sendAll texts
  refine ⟨y, all, hy, htexts, htold, hwritten, fun one h => ⟨(hleft one h).part, fun hok =>
    ((hleft one h).whole (Sent.told_eq_ok.1 hok)).2⟩, fun front one more rest heq hok hmore => ?_⟩
  have hfront : ∀ a ∈ front, a.Left := fun a ha => hleft a (by simp [heq, ha])
  have hone : one.Left := hleft one (by simp [heq])
  refine (frames_until_failure hfront (fun a ha => Sent.told_eq_ok.1 (hok a ha)) hone
    hmore).trans ?_
  rw [← htexts, heq, List.map_map]
  exact ⟨(more ++ rest).map fun a => ofText a.text, by simp [Function.comp_def]⟩

/-! ## Mixed frames -/

/-- A client whose stream fails in the middle of a frame and takes the bytes behind it. -/
def faltering : Connection where
  outlet := { planned := [.upTo 4, .upTo 2, .failure "reset"] }

/-- The first text fails and the second one is sent, behind two bytes of the first one;
the slot keeps the client. -/
theorem faltering_sends_on :
    ∃ (y : Connection) (all : List Sent),
      ((Slot.mk [faltering] (some 0)).sendAll ["paused", "ok?"]).1.Serves 0 y ∧
      all.map (·.text) = ["paused", "ok?"] ∧
      all.map (·.told) = [.error (.transport "I/O error: reset"), .ok ()] ∧
      y.outlet.written = all.flatMap (·.piece) := by
  obtain ⟨y, all, hy, htexts, htold, hwritten, -⟩ :=
    slot_sends_on (s := Slot.mk [faltering] (some 0)) ⟨rfl, rfl, rfl⟩ ["paused", "ok?"]
  refine ⟨y, all, hy, htexts, htold.symm.trans (by decide +kernel), hwritten⟩

/-- **Mixed frames.** The messages that a client can read are not always the first ones of those
that were sent to it: the frame of a message gets into the one that failed before. -/
theorem frames_mixed : ¬ ∀ (s : Slot) (c : ConnectionId) (x y : Connection) (texts : List String),
    s.Serves c x → x.outlet.written = [] → (s.sendAll texts).1.connections[c]? = some y →
      wholeFrames y.outlet.written <+: texts.map ofText := by
  intro h
  obtain ⟨y, hy⟩ : ∃ y,
      ((Slot.mk [faltering] (some 0)).sendAll ["paused", "ok?"]).1.connections[0]? =
    some y := ⟨_, rfl⟩
  have hwritten : y.outlet.written = [6, 0, 0, 0, 112, 97, 3, 0, 0, 0, 111, 107, 63] := by
    have hall : (((Slot.mk [faltering] (some 0)).sendAll ["paused", "ok?"]).1.connections[0]?).map
        (·.outlet.written) = some [6, 0, 0, 0, 112, 97, 3, 0, 0, 0, 111, 107, 63] := by
        decide +kernel
    rw [hy] at hall
    exact Option.some.inj hall
  have hread := h _ 0 faltering y ["paused", "ok?"] ⟨rfl, rfl, rfl⟩ rfl hy
  have hmixed : Wire.decode [6, 0, 0, 0, 112, 97, 3, 0, 0, 0, 111, 107, 63] =
      .ok ([112, 97, 3, 0, 0, 0], 10) := by decide +kernel
  rw [hwritten, Wire.wholeFrames_of_ok hmixed] at hread
  exact absurd (List.cons_prefix_cons.1 hread).1 (by decide +kernel)

end ScriptDebug.Server

namespace ScriptDebug.Rehearsal

open Server (Event)

/-- A client sends a request and its stream fails in the middle of the reply. -/
def tornReply : List Event :=
  [.accept { inlet := [.data (Wire.frame (Wire.ofText "{}")) 6]
             outlet := { planned := [.upTo 4, .upTo 20, .failure "reset"] } },
    .advance 0 true, .advance 0 true, .advance 0 true, .advance 0 true] ++
  .replicate 12 (.turn (.step 0))

/-- The bytes that the client is sent. -/
def tornBytes : Wire.Bytes :=
  (((idleServer.run tornReply).slot.connections[0]?).map (·.outlet.written)).getD []

/-- **The notice in the frame.** The client logic fails as the reply cannot be sent, and the notice
of this goes to the same client, which still holds the slot. The one message that the client can
read is the start of the reply and, behind it, the start of the frame of the notice. -/
theorem notice_in_frame : (idleServer.run tornReply).holder = some 0 ∧
    tornBytes.drop 24 = Wire.frame (Wire.ofText failureNotice) ∧
    ∃ m, Wire.wholeFrames tornBytes = [m] ∧ m.take 20 = (tornBytes.drop 4).take 20 ∧
      m.drop 20 <+: Wire.frame (Wire.ofText failureNotice) := by
  obtain ⟨hholder, hnotice, hfirst, hrest, hreply, hfilled⟩ :
      (idleServer.run tornReply).holder = some 0 ∧
      tornBytes.drop 24 = Wire.frame (Wire.ofText failureNotice) ∧
      Wire.decode tornBytes = .ok ((tornBytes.drop 4).take 89, 93) ∧
      Wire.decode (tornBytes.drop 93) = .error (.shortRead 2099392114 0) ∧
      ((tornBytes.drop 4).take 89).take 20 = (tornBytes.drop 4).take 20 ∧
      ((tornBytes.drop 4).take 89).drop 20 <+: Wire.frame (Wire.ofText failureNotice) := by
    decide +kernel
  refine ⟨hholder, hnotice, (tornBytes.drop 4).take 89, ?_, hreply, hfilled⟩
  rw [Wire.wholeFrames_of_ok hfirst, Wire.wholeFrames_of_error hrest]

end ScriptDebug.Rehearsal
