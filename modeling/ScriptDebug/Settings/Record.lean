import ScriptDebug.Json.Record
import ScriptDebug.Settings.Basic

/-!
# Settings as JSON values

Settings and their groups are records in which every field has a default, so that an object may
leave out any of them and an array may end before any of them. The JSON form of settings has all.
-/

namespace ScriptDebug

open Json (Record)

/-- How a log level is read. -/
def LogLevel.read : Json → Json.Read LogLevel :=
  Json.asChoice (LogLevel.all.map LogLevel.text) LogLevel.ofText?

/-- How the place to listen at is read. -/
def ServerSettings.record : Record ServerSettings where
  name := "ServerConfig"
  fields := [⟨"bind", none, false⟩, ⟨"port", none, false⟩]
  blank := {}
  set s name j :=
    match name with
    | "bind" => do return { s with bind := ← Json.asString "a string" j }
    | _ => do return { s with port := ← Json.asShort j }

/-- How the behaviour of the debugger is read. -/
def DebuggerSettings.record : Record DebuggerSettings where
  name := "DebuggerConfig"
  fields := [⟨"break_without_client", none, false⟩]
  blank := {}
  set s _ j := do return { s with breakWithoutClient := ← Json.asFlag j }

/-- How the demo program is read. -/
def DemoSettings.record : Record DemoSettings where
  name := "DemoConfig"
  fields := [⟨"threads", none, false⟩, ⟨"step_delay_ms", none, false⟩,
    ⟨"script_name", none, false⟩]
  blank := {}
  set s name j :=
    match name with
    | "threads" => do return { s with threads := ← Json.asSize j }
    | "step_delay_ms" => do return { s with stepDelay := ← Json.asLong j }
    | _ => do return { s with scriptName := ← Json.asString "a string" j }

/-- How the log is read. -/
def LogSettings.record : Record LogSettings where
  name := "LogConfig"
  fields := [⟨"level", none, false⟩, ⟨"file", none, false⟩]
  blank := {}
  set s name j :=
    match name with
    | "level" => do return { s with level := ← LogLevel.read j }
    | _ => do return { s with file := ← Json.asOptional (Json.asString "path string") j }

/-- How **settings** are read. -/
def Settings.record : Record Settings where
  name := "Config"
  fields := [⟨"server", none, false⟩, ⟨"debugger", none, false⟩, ⟨"demo", none, false⟩,
    ⟨"log", none, false⟩]
  blank := {}
  set s name j :=
    match name with
    | "server" => do return { s with server := ← ServerSettings.record.read j }
    | "debugger" => do return { s with debugger := ← DebuggerSettings.record.read j }
    | "demo" => do return { s with demo := ← DemoSettings.record.read j }
    | _ => do return { s with log := ← LogSettings.record.read j }

/-- The JSON form of settings. -/
def Settings.json (s : Settings) : Json :=
  .object [
    ("server", .object [("bind", .string s.server.bind), ("port", .ofNat s.server.port)]),
    ("debugger", .object [("break_without_client", .boolean s.debugger.breakWithoutClient)]),
    ("demo",
      .object [("threads", .ofNat s.demo.threads), ("step_delay_ms", .ofNat s.demo.stepDelay),
        ("script_name", .string s.demo.scriptName)]),
    ("log", .object [("level", .string s.log.level.text), ("file", .ofOption .string s.log.file)])]

end ScriptDebug
