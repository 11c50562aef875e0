import ScriptDebug.Wire.Frame

/-!
# Writing frames to a stream

A stream takes some bytes of each write, is interrupted, or fails. A frame is written in two parts,
the length and the message, each until nothing is left of it; then the stream is flushed. `advance`
is one write, so that a message under way is a value.
-/

namespace ScriptDebug.Wire

/-- How a stream meets one write. -/
inductive Acceptance where
  /-- It takes at most this many bytes. -/
  | upTo (n : Nat)
  /-- It is interrupted; the write may be tried again. -/
  | interrupted
  /-- It fails. -/
  | failure (message : String)
  deriving DecidableEq, Repr

/-- **Outlet.** The writing end of a stream. The next writes meet the planned acceptances in turn;
after these the stream takes at most `most` bytes a write while it has room. -/
structure Outlet where
  /-- The bytes taken so far, the last one first. -/
  taken : Bytes := []
  flushes : Nat := 0
  planned : List Acceptance := []
  most : Option Nat := none
  room : Option Nat := none
  /-- The error of a write without room; a full stream takes no bytes if there is none. -/
  whenFull : Option String := none
  /-- The error of a flush. -/
  flushError : Option String := none
  deriving Repr

/-- The bytes written so far. -/
def Outlet.written (o : Outlet) : Bytes := o.taken.reverse

/-- The bytes that a stream takes of a write without a plan. -/
def Outlet.share (o : Outlet) (bytes : Bytes) : Bytes :=
  match o.most, o.room with
  | none, none => bytes
  | some n, none => bytes.take n
  | none, some n => bytes.take n
  | some m, some n => bytes.take (min m n)

/-- Take some bytes. -/
def Outlet.take (o : Outlet) (bytes : Bytes) : Outlet :=
  { o with taken := bytes.reverse ++ o.taken, room := o.room.map (· - bytes.length) }

/-- What one write does. -/
inductive Written where
  | took (n : Nat)
  | interrupted
  | failed (message : String)
  deriving DecidableEq, Repr

/-- One write of some bytes. -/
def Outlet.write (o : Outlet) (bytes : Bytes) : Outlet × Written :=
  match o.planned with
  | .interrupted :: rest => ({ o with planned := rest }, .interrupted)
  | .failure message :: rest => ({ o with planned := rest }, .failed message)
  | .upTo n :: rest =>
    let part := bytes.take n
    (Outlet.take { o with planned := rest } part, .took part.length)
  | [] =>
    match o.room, o.whenFull with
    | some 0, some message => (o, .failed message)
    | _, _ =>
      let part := o.share bytes
      (o.take part, .took part.length)

/-- Flush the stream. -/
def Outlet.flush (o : Outlet) : Outlet × Option String :=
  ({ o with flushes := o.flushes + 1 }, o.flushError)

/-- **Sending.** A message under way. -/
inductive Sending where
  /-- The parts of the frame that are left to write. -/
  | parts (left : List Bytes)
  | done (r : Except Failure Unit)

/-- A message before its first write. -/
def Sending.start (message : Bytes) : Sending :=
  match encodeLength message.length with
  | .error e => .done (.error e)
  | .ok length => .parts [length, message]

/-- **One step** of sending: a write, the flush behind the last one, or the end of a part. -/
def Sending.advance (o : Outlet) : Sending → Outlet × Sending
  | .done r => (o, .done r)
  | .parts [] =>
    match o.flush with
    | (o, none) => (o, .done (.ok ()))
    | (o, some message) => (o, .done (.error (.stream message)))
  | .parts ([] :: rest) => (o, .parts rest)
  | .parts (bytes :: rest) =>
    match o.write bytes with
    | (o, .took 0) => (o, .done (.error (.stream "failed to write whole buffer")))
    | (o, .took n) => (o, .parts (bytes.drop n :: rest))
    | (o, .interrupted) => (o, .parts (bytes :: rest))
    | (o, .failed message) => (o, .done (.error (.stream message)))

/-- What is left to do, counted so that every step leaves less. -/
def Sending.left (o : Outlet) : Sending → Nat
  | .done _ => 0
  | .parts ps => 1 + o.planned.length + ps.length + ps.flatten.length

theorem Outlet.write_planned_le (o : Outlet) (bytes : Bytes) :
    (o.write bytes).1.planned.length ≤ o.planned.length := by
  unfold Outlet.write
  split
  · rename_i h; simp [h]
  · rename_i h; simp [h]
  · rename_i h; simp [Outlet.take, h]
  · rename_i h
    dsimp only
    split <;> simp [Outlet.take]

theorem Outlet.write_interrupted {o p : Outlet} {bytes : Bytes}
    (h : o.write bytes = (p, .interrupted)) : p.planned.length < o.planned.length := by
  unfold Outlet.write at h
  split at h
  · rename_i hp
    simp only [Prod.mk.injEq, and_true] at h
    simp [← h, hp]
  · simp at h
  · simp at h
  · dsimp only at h
    split at h <;> simp at h

theorem Sending.left_advance {o : Outlet} {ps : List Bytes} :
    (Sending.advance o (.parts ps)).2.left (Sending.advance o (.parts ps)).1 <
      (Sending.parts ps).left o := by
  match ps with
  | [] =>
    simp only [Sending.advance]
    split <;> simp only [Sending.left] <;> omega
  | [] :: rest => simp [Sending.advance, Sending.left]
  | (b :: bs) :: rest =>
    have hle := o.write_planned_le (b :: bs)
    simp only [Sending.advance]
    split
    · simp only [Sending.left]
      omega
    · rename_i q n hn hw
      have hq : q.planned.length ≤ o.planned.length := by rw [hw] at hle; exact hle
      have : n ≠ 0 := hn
      simp only [Sending.left, List.flatten_cons, List.length_append, List.length_drop,
        List.length_cons]
      omega
    · rename_i hw
      have := Outlet.write_interrupted hw
      simp only [Sending.left, List.flatten_cons, List.length_append, List.length_cons]
      omega
    · simp only [Sending.left]
      omega

/-- Send the rest of a message. -/
def Sending.finish (o : Outlet) : Sending → Outlet × Except Failure Unit
  | .done r => (o, r)
  | .parts ps =>
    Sending.finish (Sending.advance o (.parts ps)).1 (Sending.advance o (.parts ps)).2
termination_by s => s.left o
decreasing_by exact Sending.left_advance

/-- **Write** one message as a frame. -/
def writeMessage (o : Outlet) (message : Bytes) : Outlet × Except Failure Unit :=
  Sending.finish o (.start message)

end ScriptDebug.Wire
