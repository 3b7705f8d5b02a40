import LineStore.CommandLine.Help
import LineStore.FileTree
import LineStore.Settings
import LineStore.Text.Utf8

/-!
# Loading the settings

The server's command line gives one layer of settings, and may name a file
that gives another.

* `Settings.serverProgram` describes the command line.
* `Settings.loadWith` goes from the command line's layer to the settings, with
  any way to read the text of a settings file.
-/

namespace LineStore.Settings

open CommandLine

def version : String := "0.1.0"

/-- The server program, as its command line knows it. -/
def serverProgram : Program :=
  { name := "mangokv-server"
    version
    about := "An in-memory key-value store with a line-oriented TCP protocol"
    switches :=
      [⟨some 'c', "config", .path, "Path to TOML configuration file", none⟩,
        ⟨some 'H', "host", .text, "Host to bind to (default: 127.0.0.1)", none⟩,
        ⟨some 'p', "port", .number Layer.maxPort true, "Port to listen on (default: 8080)", none⟩,
        ⟨some 'w', "workers", .number Layer.maxNumber false,
          "Number of worker threads (defaults to number of CPU cores)", none⟩,
        ⟨none, "max-line-length", .number Layer.maxNumber false,
          "Longest accepted request line in bytes", none⟩,
        ⟨none, "shutdown-timeout", .number Layer.maxNumber false,
          "Seconds to wait for open connections on shutdown", none⟩,
        ⟨none, "log-level", .text,
          "Log level (trace, debug, info, warn, error); RUST_LOG overrides it", none⟩]
    operands? := none }

/-- What the server's command line says: a file to read, and a layer. -/
structure Request where
  file? : Option String
  layer : Layer
  deriving DecidableEq, Repr

def Request.of (parsed : Parsed) : Request :=
  { file? := parsed.text? "config"
    layer :=
      { host? := parsed.text? "host"
        port? := parsed.number? "port"
        workers? := parsed.number? "workers"
        maxLine? := parsed.number? "max-line-length"
        shutdownTimeout? := parsed.number? "shutdown-timeout"
        logLevel? := parsed.text? "log-level" } }

/-- What a settings file gives, from the result of reading it.  `parse?` finds the
tables in its text. -/
def tablesOfFile (parse? : List Char → Option Tables) (path : String)
    (content : Except IOFault Bytes) : Except SettingsError Tables :=
  match content with
  | .error fault => .error (.unreadable path fault)
  | .ok bytes =>
    match Utf8.decode bytes with
    | .error _ => .error (.unreadable path .notText)
    | .ok text =>
      match parse? text with
      | none => .error (.malformed path)
      | some tables => .ok tables

/-- The settings that two layers give together, if the server can run with
them. -/
def settle (commandLine : Layer) (file : Tables) : Except SettingsError Settings :=
  let settings := resolve commandLine file
  match settings.check with
  | .ok () => .ok settings
  | .error problem => .error (.invalid problem)

/-- The settings that a command line asks for.  `read` reads a file, and `parse?`
finds the tables in its text. -/
def loadWith (parse? : List Char → Option Tables) (read : String → Except IOFault Bytes)
    (request : Request) : Except SettingsError Settings := do
  let file ←
    match request.file? with
    | some path => tablesOfFile parse? path (read path)
    | none => .ok .empty
  settle request.layer file

end LineStore.Settings
