import ScriptDebug.Settings.Loading
import ScriptDebug.Station

/-!
# The debug server

Loads the settings, from the file that is named or from the one of the user, starts the demo
threads, and serves one client: frames come in on standard input and go out on standard output.
-/

namespace ScriptDebug.Main

/-- The file at a path, alone in a tree. -/
def fetch (path : String) : IO Files := do
  try
    let content ← IO.FS.readBinFile path
    let directory := String.intercalate "/" (path.splitOn "/").dropLast
    let files := (Files.makeDirectories {} directory).1
    return (files.write path content.toList).toOption.getD files
  catch _ => return {}

/-- Write a new file of settings; the defaults hold without it as well. -/
def provide (directory : String) : IO Unit := do
  try
    IO.FS.createDirAll directory
    IO.FS.writeFile (Text.joinPath directory Settings.fileName) Settings.defaultText
  catch _ => return

/-- The settings of the user; the defaults if they do not load. -/
def userSettings : IO Settings := do
  match ← IO.getEnv "HOME" with
  | none => return {}
  | some home =>
    let directory := Settings.homeDirectory home
    let path := Text.joinPath directory Settings.fileName
    let files ← fetch path
    if !files.isFile path then provide directory
    return ((Settings.ofDirectory files directory).2).toOption.getD {}

/-- The settings to start with; a file that is named has to load. -/
def loadSettings : List String → IO (Except String Settings)
  | [] => return .ok (← userSettings)
  | path :: _ => do
    match Settings.ofFile (← fetch path) path with
    | .ok settings => return .ok settings
    | .error e => return .error s!"failed to load config {path}: {e.message}"

/-- How long to wait for the client before the demo threads go on, in milliseconds. -/
def pace : UInt32 := 10

/-- Read `n` bytes, or all there are before the end. -/
partial def readBytes (input : IO.FS.Stream) (n : Nat) (before : ByteArray := .empty) :
    IO ByteArray := do
  if n = 0 then return before
  let got ← input.read (min n Wire.portion).toUSize
  if got.isEmpty then return before
  readBytes input (n - got.size) (before ++ got)

/-- Read one frame, or what there is of it before the end. -/
def readFrame (input : IO.FS.Stream) : IO ByteArray := do
  let length ← readBytes input 4
  if length.size < 4 then return length
  readBytes input (Wire.lengthOf length.toList) length

/-- Serve the client until its stream ends. -/
partial def serve (input output : IO.FS.Stream) (delay : Nat) (s : Station) (due : Nat)
    (arrival : Task (Except IO.Error ByteArray)) : IO Station := do
  let now ← IO.monoMsNow
  let (s, due) := if due ≤ now then (s.burst, now + delay) else (s, due)
  let (s, sent) := (s.attend (s.unread.length + 1)).collect
  if !sent.isEmpty then
    output.write ⟨sent.toArray⟩
    output.flush
  if ← IO.hasFinished arrival then
    match arrival.get with
    | .ok bytes =>
      if bytes.isEmpty then return s
      serve input output delay (s.receive bytes.toList) due (← IO.asTask (readFrame input))
    | .error _ => return s
  else
    IO.sleep pace
    serve input output delay s due arrival

end ScriptDebug.Main

open ScriptDebug in
/-- Run the debug server. -/
def main (args : List String) : IO UInt32 := do
  let station ← match ← Main.loadSettings args with
    | .ok settings => pure ((Station.start settings).map fun s => (s, settings))
    | .error message => pure (.error message)
  match station with
  | .error message =>
    IO.eprintln s!"ldb-server: {message}"
    return 1
  | .ok (s, settings) =>
    let input ← IO.getStdin
    let output ← IO.getStdout
    let s ← Main.serve input output settings.demo.stepDelay s 0
      (← IO.asTask (Main.readFrame input))
    return if s.finish.demo.stage.isOver then 0 else 1
