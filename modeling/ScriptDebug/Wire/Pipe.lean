import ScriptDebug.Wire.Reading

/-!
# Pipes

A pipe has two sides; what one side sends, the other one reads, in the same order. A side that is
shut down sends nothing more and nothing more comes to it, but what was sent before can be read.
-/

namespace ScriptDebug.Wire

/-- **Side** of a pipe. -/
inductive Side where
  | near | far
  deriving DecidableEq, Repr

/-- The side across. -/
def Side.across : Side → Side
  | .near => .far
  | .far => .near

/-- One end of a pipe. -/
structure Terminal where
  /-- What is on its way to this end. -/
  inlet : List Delivery := []
  shut : Bool := false
  deriving DecidableEq, Repr

/-- **Pipe.** -/
structure Pipe where
  near : Terminal := {}
  far : Terminal := {}
  deriving DecidableEq, Repr

namespace Pipe

/-- The end on a side. -/
def terminal (p : Pipe) : Side → Terminal
  | .near => p.near
  | .far => p.far

/-- Change the end on a side. -/
def onTerminal (p : Pipe) (side : Side) (f : Terminal → Terminal) : Pipe :=
  match side with
  | .near => { p with near := f p.near }
  | .far => { p with far := f p.far }

/-- **Send** bytes as they are. -/
def send (p : Pipe) (side : Side) (bytes : Bytes) : Pipe × Except Failure Unit :=
  if (p.terminal side).shut then (p, .error .brokenPipe)
  else if (p.terminal side.across).shut then (p, .ok ())
  else
    let arrival := Delivery.data bytes bytes.length
    (p.onTerminal side.across fun x => { x with inlet := x.inlet ++ [arrival] }, .ok ())

/-- **Write** one message as a frame. -/
def write (p : Pipe) (side : Side) (message : Bytes) : Pipe × Except Failure Unit :=
  match encode message with
  | .error e => (p, .error e)
  | .ok frame => p.send side frame

/-- **Read** one frame. -/
def read (p : Pipe) (side : Side) : Pipe × Except Failure Bytes :=
  let (r, inlet) := readMessage (p.terminal side).inlet
  (p.onTerminal side fun x => { x with inlet }, r)

/-- **Read** one frame that holds a text. -/
def readText (p : Pipe) (side : Side) : Pipe × Except Failure String :=
  let (r, inlet) := Wire.readText (p.terminal side).inlet
  (p.onTerminal side fun x => { x with inlet }, r)

/-- **Shut** a side down, in both directions. -/
def shutDown (p : Pipe) (side : Side) : Pipe :=
  p.onTerminal side fun x => { x with shut := true }

end Pipe

end ScriptDebug.Wire
