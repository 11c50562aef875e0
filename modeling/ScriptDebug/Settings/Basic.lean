import ScriptDebug.Text.Blank

/-!
# Settings

What a server is started with: where it listens, whether it breaks without a client, the demo
program it runs, and its log. Every setting has a default; some have a range.
-/

namespace ScriptDebug

/-- How much is logged. -/
inductive LogLevel where
  | trace | debug | info | warn | error
  deriving DecidableEq, Repr

/-- The word for a level. -/
def LogLevel.text : LogLevel → String
  | .trace => "trace"
  | .debug => "debug"
  | .info => "info"
  | .warn => "warn"
  | .error => "error"

/-- All levels, from the most that is logged to the least. -/
def LogLevel.all : List LogLevel := [.trace, .debug, .info, .warn, .error]

/-- The level with the given word. -/
def LogLevel.ofText? (s : String) : Option LogLevel := LogLevel.all.find? fun l => l.text == s

/-- Where a server listens. -/
structure ServerSettings where
  bind : String := "127.0.0.1"
  port : Nat := 9999
  deriving DecidableEq, Repr

/-- The address to listen at. -/
def ServerSettings.address (s : ServerSettings) : String := s!"{s.bind}:{s.port}"

/-- How the debugger behaves. -/
structure DebuggerSettings where
  /-- Whether hook events are looked at while no client is connected. -/
  breakWithoutClient : Bool := false
  deriving DecidableEq, Repr

/-- The demo program. -/
structure DemoSettings where
  threads : Nat := 2
  /-- The delay behind each statement, in milliseconds. -/
  stepDelay : Nat := 250
  /-- The name of the script file that the program claims to be. -/
  scriptName : String := "demo.lua"
  deriving DecidableEq, Repr

/-- The log. -/
structure LogSettings where
  level : LogLevel := .info
  /-- The file to log to instead of the one in the home directory. -/
  file : Option String := none
  deriving DecidableEq, Repr

/-- **Settings** of a server. -/
structure Settings where
  server : ServerSettings := {}
  debugger : DebuggerSettings := {}
  demo : DemoSettings := {}
  log : LogSettings := {}
  deriving DecidableEq, Repr

namespace Settings

/-- The most demo threads. -/
def mostThreads : Nat := 64

/-- The longest delay behind a statement, in milliseconds. -/
def longestDelay : Nat := 60000

/-- A setting that is out of its range. -/
inductive Violation where
  | portZero
  | bindEmpty
  | threads (n : Nat)
  | stepDelay (n : Nat)
  deriving DecidableEq, Repr

/-- The name of the setting. -/
def Violation.setting : Violation → String
  | .portZero => "server.port"
  | .bindEmpty => "server.bind"
  | .threads _ => "demo.threads"
  | .stepDelay _ => "demo.step_delay_ms"

/-- What is wrong with the setting. -/
def Violation.reason : Violation → String
  | .portZero => "must not be 0"
  | .bindEmpty => "must not be empty"
  | .threads n => s!"must be 1 to {mostThreads}, got {n}"
  | .stepDelay n => s!"must be at most {longestDelay}, got {n}"

/-- The wording of a violation. -/
def Violation.message (v : Violation) : String :=
  s!"validation error: {v.setting}: {v.reason}"

/-- **Violations,** in the order of the settings. -/
def violations (s : Settings) : List Violation :=
  (if s.server.port = 0 then [.portZero] else []) ++
  (if (Text.trim s.server.bind).isEmpty then [.bindEmpty] else []) ++
  (if 1 ≤ s.demo.threads ∧ s.demo.threads ≤ mostThreads then [] else [.threads s.demo.threads]) ++
  (if s.demo.stepDelay ≤ longestDelay then [] else [.stepDelay s.demo.stepDelay])

end Settings

end ScriptDebug
