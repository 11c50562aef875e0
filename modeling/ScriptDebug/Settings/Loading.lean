import ScriptDebug.Files
import ScriptDebug.Settings.Reading
import ScriptDebug.Toml.Reader

/-!
# Loading settings

From a text, from a file that is named, or from the file of a directory, which is made with all
defaults commented out where it is missing.
-/

namespace ScriptDebug.Settings

/-- Why settings were not loaded. -/
inductive LoadFailure where
  /-- A file that was named is not there. -/
  | notFound (path : String)
  /-- The file with the defaults was not written. -/
  | notCreated (e : Files.Failure)
  /-- The text is not well-formed, or a setting has a value of another type. -/
  | malformed
  | violation (v : Violation)
  | file (e : Files.Failure)
  deriving DecidableEq, Repr

/-- The wording of a failure to load. -/
def LoadFailure.message : LoadFailure → String
  | .notFound path => s!"config file not found: {path}"
  | .notCreated e => s!"failed to create default config: {e.message}"
  | .malformed => "TOML parse error: not a settings file"
  | .violation v => v.message
  | .file e => s!"I/O error: {e.message}"

/-- **Settings from a text;** of several violations the first one is reported. -/
def ofText (s : String) : Except LoadFailure Settings :=
  match (Toml.parse s).bind ofToml? with
  | none => .error .malformed
  | some settings =>
    match settings.violations with
    | [] => .ok settings
    | v :: _ => .error (.violation v)

/-- The lines of a file with all defaults, commented out. -/
def defaultLines : List String :=
  ["ldb debug server configuration",
    "Uncomment and edit settings below to override defaults.", "",
    "[server]", "bind = \"127.0.0.1\"", "port = 9999", "",
    "[debugger]", "break_without_client = false", "",
    "[demo]", "threads = 2", "step_delay_ms = 250", "script_name = \"demo.lua\"", "",
    "[log]", "level = \"info\"", "file = \"/tmp/ldb.log\""]

/-- The text of a file with all defaults, commented out. -/
def defaultText : String :=
  String.join (defaultLines.map fun line => (if line.isEmpty then "" else "# " ++ line) ++ "\n")

/-- The name of the file in a directory. -/
def fileName : String := "config.toml"

/-- **Settings from a file** that is named. -/
def ofFile (files : Files) (path : String) : Except LoadFailure Settings :=
  if !files.isFile path then .error (.notFound path)
  else
    match files.readText path with
    | .ok s => ofText s
    | .error e => .error (.file e)

/-- Make a directory and its file, where they are missing. -/
def provide (files : Files) (directory : String) : Files × Except LoadFailure Unit :=
  match if files.exists? directory then (files, .ok ()) else files.makeDirectories directory with
  | (files, .error e) => (files, .error (.file e))
  | (files, .ok ()) =>
    let path := Text.joinPath directory fileName
    if files.exists? path then (files, .ok ())
    else
      match files.write path defaultText.toUTF8.toList with
      | .ok files => (files, .ok ())
      | .error e => (files, .error (.notCreated e))

/-- **Settings from a directory,** and the files afterwards. -/
def ofDirectory (files : Files) (directory : String) : Files × Except LoadFailure Settings :=
  match provide files directory with
  | (files, .error e) => (files, .error e)
  | (files, .ok ()) =>
    match files.readText (Text.joinPath directory fileName) with
    | .ok s => (files, ofText s)
    | .error e => (files, .error (.file e))

/-! ## Places in the home directory -/

/-- The directory of the settings. -/
def homeDirectory (home : String) : String :=
  Text.joinPath (Text.joinPath home ".config") "ldb"

/-- The file that is logged to. -/
def homeLogFile (home : String) : String :=
  ["share", "ldb", "logs", "ldb.log"].foldl Text.joinPath (Text.joinPath home ".local")

end ScriptDebug.Settings
