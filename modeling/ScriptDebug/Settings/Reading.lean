import ScriptDebug.Settings.Basic
import ScriptDebug.Toml.Basic

/-!
# Settings from configuration values

Each group of settings is read from a table, by name, or from an array, by position. What a table
or an array holds beyond the settings is skipped; a setting that is not there keeps its default.
-/

namespace ScriptDebug.Settings

/-- The values that a group of settings takes, by the names of the settings. A date holds none. -/
def group? (names : List String) : Toml → Option (List (String × Toml))
  | .table entries => some entries
  | .array items => some (names.zip items)
  | .moment _ => some []
  | _ => none

/-- Read a group: start from its defaults, and let each value set what it is for. -/
def readGroup (names : List String) (blank : α) (set : α → String → Toml → Option α) (v : Toml) :
    Option α := do
  let entries ← group? names v
  entries.foldlM (fun done (name, v) => if names.contains name then set done name v else some done)
    blank

/-- A text. -/
def readText : Toml → Option String
  | .text s => some s
  | _ => none

/-- A truth value. -/
def readFlag : Toml → Option Bool
  | .boolean b => some b
  | _ => none

/-- A number from zero to a bound. -/
def readNumber (high : Nat) : Toml → Option Nat
  | .integer n => if 0 ≤ n ∧ n ≤ high then some n.toNat else none
  | _ => none

/-- A level: its word, or a table that holds an empty table or array under its word. -/
def readLevel : Toml → Option LogLevel
  | .text s => LogLevel.ofText? s
  | .table [(name, .table [])] | .table [(name, .array [])] => LogLevel.ofText? name
  | _ => none

/-- Where to listen. -/
def readServer (v : Toml) : Option ServerSettings :=
  readGroup ["bind", "port"] {} (fun s name v =>
    match name with
    | "bind" => do return { s with bind := ← readText v }
    | _ => do return { s with port := ← readNumber 65535 v }) v

/-- How the debugger behaves. -/
def readDebugger (v : Toml) : Option DebuggerSettings :=
  readGroup ["break_without_client"] {} (fun s _ v => do
    return { s with breakWithoutClient := ← readFlag v }) v

/-- The demo program. -/
def readDemo (v : Toml) : Option DemoSettings :=
  readGroup ["threads", "step_delay_ms", "script_name"] {} (fun s name v =>
    match name with
    | "threads" => do return { s with threads := ← readNumber 0xffffffffffffffff v }
    | "step_delay_ms" => do return { s with stepDelay := ← readNumber 0xffffffffffffffff v }
    | _ => do return { s with scriptName := ← readText v }) v

/-- The log. -/
def readLog (v : Toml) : Option LogSettings :=
  readGroup ["level", "file"] {} (fun s name v =>
    match name with
    | "level" => do return { s with level := ← readLevel v }
    | _ => do return { s with file := some (← readText v) }) v

/-- **Settings** from a configuration value. -/
def ofToml? (v : Toml) : Option Settings :=
  readGroup ["server", "debugger", "demo", "log"] {} (fun s name v =>
    match name with
    | "server" => do return { s with server := ← readServer v }
    | "debugger" => do return { s with debugger := ← readDebugger v }
    | "demo" => do return { s with demo := ← readDemo v }
    | _ => do return { s with log := ← readLog v }) v

end ScriptDebug.Settings
