/-!
# Frames

A message travels as a frame: its length in four bytes, the least significant first, and then the
message itself. `decode` reads the first frame of some bytes; it undoes `encode`, whatever follows
the frame.
-/

namespace ScriptDebug.Wire

abbrev Bytes := List UInt8

/-- Why a message was not read or written. -/
inductive Failure where
  /-- The stream ended before the first byte of a frame. -/
  | closed
  /-- The bytes ended inside a frame. -/
  | shortRead (expected got : Nat)
  /-- The length of the message does not fit four bytes. -/
  | tooLarge (length : Nat)
  /-- The message is no UTF-8 text. -/
  | notText
  /-- The stream failed. -/
  | stream (message : String)
  deriving DecidableEq, Repr

/-- The wording of a failure. -/
def Failure.message : Failure → String
  | .closed => "connection closed"
  | .shortRead expected got => s!"short read: expected {expected} bytes, got {got}"
  | .tooLarge length => s!"message of {length} bytes exceeds the length prefix"
  | .notText => "message is not valid UTF-8"
  | .stream message => s!"I/O error: {message}"

/-- The failure of a write behind a shutdown. -/
def Failure.brokenPipe : Failure := .stream "Broken pipe (os error 32)"

/-- Whether the connection is of no further use. Only a message that is no text leaves the stream
at the start of a frame. -/
def Failure.isFatal : Failure → Bool
  | .notText => false
  | _ => true

/-- The four bytes of a length. -/
def lengthBytes (n : Nat) : Bytes :=
  [n.toUInt8, (n / 0x100).toUInt8, (n / 0x10000).toUInt8, (n / 0x1000000).toUInt8]

/-- The length that four bytes stand for. -/
def lengthOf : Bytes → Nat
  | [a, b, c, d] => a.toNat + 0x100 * b.toNat + 0x10000 * c.toNat + 0x1000000 * d.toNat
  | _ => 0

/-- The four bytes of a length, if it fits them. -/
def encodeLength (n : Nat) : Except Failure Bytes :=
  if n < 0x100000000 then .ok (lengthBytes n) else .error (.tooLarge n)

/-- **Encode** a message as a frame. -/
def encode (message : Bytes) : Except Failure Bytes := do
  return (← encodeLength message.length) ++ message

/-- **Decode** the first frame: its message, and the number of bytes it takes. -/
def decode : Bytes → Except Failure (Bytes × Nat)
  | a :: b :: c :: d :: body =>
    let n := lengthOf [a, b, c, d]
    let message := body.take n
    if message.length < n then .error (.shortRead n message.length) else .ok (message, 4 + n)
  | few => .error (.shortRead 4 few.length)

@[simp] theorem length_lengthBytes (n : Nat) : (lengthBytes n).length = 4 := rfl

theorem lengthOf_lengthBytes {n : Nat} (h : n < 0x100000000) : lengthOf (lengthBytes n) = n := by
  simp [lengthOf, lengthBytes]
  omega

/-- Decoding undoes encoding, whatever follows. -/
theorem decode_encode_append {message frame : Bytes} (h : encode message = .ok frame)
    (rest : Bytes) : decode (frame ++ rest) = .ok (message, frame.length) := by
  simp only [encode, encodeLength] at h
  split at h
  · rename_i hn
    simp only [bind, Except.bind, pure, Except.pure, Except.ok.injEq] at h
    subst h
    have hl := lengthOf_lengthBytes hn
    simp only [lengthBytes] at hl
    simp [decode, lengthBytes, hl]
    omega
  · simp [bind, Except.bind] at h

/-- A message read as text. -/
def text? (message : Bytes) : Option String :=
  String.fromUTF8? ⟨message.toArray⟩

/-- A text as a message. -/
def ofText (s : String) : Bytes := s.toUTF8.toList

end ScriptDebug.Wire
