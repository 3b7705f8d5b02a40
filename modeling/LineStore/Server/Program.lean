import LineStore.Report
import LineStore.Server
import LineStore.Settings.File

/-!
# The server program

The program loads its settings, shows a banner, binds to its address, and
serves until it is told to stop.

* `Server.start` is everything up to the first client.
* `Server.startEntries` and `Server.stopEntries` are the log of the program
  itself, at its two ends.
-/

namespace LineStore.Server

/-- The picture that the program shows at its start. -/
def picture : List String :=
  ["  __  __                         _  ____     __",
    " |  \\/  | __ _ _ __   __ _  ___ | |/ /\\ \\   / /",
    " | |\\/| |/ _` | '_ \\ / _` |/ _ \\| ' /  \\ \\ / /",
    " | |  | | (_| | | | | (_| | (_) | . \\   \\ V /",
    " |_|  |_|\\__,_|_| |_|\\__, |\\___/|_|\\_\\   \\_/",
    "                     |___/"]

def banner (settings : Settings) : List String :=
  [""] ++ picture ++
    ["",
      s!"MangoKV v{Settings.version} - In-Memory Key-Value Store",
      "".pushn '─' 62,
      s!"Server starting on {settings.address}",
      "",
      "Use Ctrl+C to shutdown gracefully.",
      ""]

def workersText : Option Nat → String
  | some count => s!"Some({count})"
  | none => "None"

def secondsText (seconds : Nat) : String :=
  if seconds = 0 then "0ns" else s!"{seconds}s"

def startEntries (settings : Settings) : List Log.Entry :=
  [⟨.info, "Starting MangoKV server",
      [("host", settings.host), ("port", toString settings.port),
        ("workers", workersText settings.workers?),
        ("max_line_length", toString settings.maxLine),
        ("shutdown_timeout", secondsText settings.shutdownTimeout)]⟩,
    ⟨.info, "Storage engine initialized", []⟩]

/-- The log entries of a server that stops.  `before` is its hub at the signal,
and `after` the hub once the signalled connections have closed. -/
def stopEntries (settings : Settings) (before after : Hub) : List Log.Entry :=
  let store := after.shared.store.counters
  let traffic := after.shared.traffic
  [⟨.info, "Shutdown signal received, stopping server...", []⟩] ++
    (if before.live.isEmpty then []
      else [⟨.info, "Waiting for open connections to close",
        [("connections", toString before.live.length)]⟩]) ++
    (if after.live.isEmpty then []
      else [⟨.warn, "Shutdown timeout elapsed, aborting remaining connections",
        [("remaining", toString after.live.length),
          ("timeout", secondsText settings.shutdownTimeout)]⟩]) ++
    [⟨.info, "Server shutdown complete", []⟩,
      ⟨.info, "Final statistics",
        [("keys", toString store.keys), ("gets", toString store.gets),
          ("puts", toString store.puts), ("deletes", toString store.deletes),
          ("rejected_puts", toString store.refused),
          ("connections", toString traffic.accepted),
          ("commands", toString traffic.commands),
          ("bytes_read", toString traffic.bytesRead),
          ("bytes_written", toString traffic.bytesWritten)]⟩]

/-- How the program starts: it ends at once, or serves with its settings. -/
inductive Startup
  | ended (result : ProgramResult)
  | serving (settings : Settings) (verbosity : Log.Verbosity)
  deriving DecidableEq, Repr

def causesOf : SettingsError → List String
  | .unreadable path fault => [SettingsError.message (.unreadable path fault), fault.text]
  | error => [error.message]

/-- What the program leaves behind when its settings cannot be loaded. -/
def withoutSettings (error : SettingsError) : ProgramResult :=
  ⟨1, "", Report.render ⟨"failed to load configuration", causesOf error⟩⟩

/-- The verbosity of the program's log.  The environment may set it, and wins
over the settings. -/
def verbosity (settings : Settings) (environment? : Option String) : Log.Verbosity :=
  .ofName (environment?.getD settings.logLevel)

/-- What the program leaves behind when it cannot bind to its address. -/
def withoutAddress (settings : Settings) (verbosity : Log.Verbosity) (error : ServerError) :
    ProgramResult :=
  let fault := match error with
    | .bind _ fault => fault.text
    | .io fault => fault.text
  let lines := banner settings ++
    (verbosity.shown (startEntries settings)).map Log.Entry.render
  ⟨1, String.join (lines.map (· ++ "\n")),
    Report.render ⟨"failed to start server", [error.message, fault]⟩⟩

/-- What the program leaves behind when its command line stops it. -/
def stopped : CommandLine.Stop → ProgramResult
  | .help => ⟨0, Settings.serverProgram.helpText, ""⟩
  | .version => ⟨0, Settings.serverProgram.versionText, ""⟩
  | .misuse _ => ⟨2, "", ""⟩

/-- The start of the program.  `read` reads a file, and `environment?` is the
verbosity that the environment sets. -/
def start (network : Network) (read : String → Except IOFault Bytes)
    (environment? : Option String) (arguments : List String) : Startup :=
  match Settings.serverProgram.parse arguments with
  | .error stop => .ended (stopped stop)
  | .ok parsed =>
    match Settings.load read (.of parsed) with
    | .error error => .ended (withoutSettings error)
    | .ok settings =>
      let verbosity := verbosity settings environment?
      match bind network settings with
      | .error error => .ended (withoutAddress settings verbosity error)
      | .ok () => .serving settings verbosity

end LineStore.Server
