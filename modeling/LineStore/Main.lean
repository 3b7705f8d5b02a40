import LineStore.Console
import LineStore.Server.Program

/-!
# The programs

The first argument chooses the program, `server` or `cli`; the others are its
own.  The server reads its settings file from disk and serves one client, over
standard input and output.  The command-line client has a server of its own
to talk to, which starts without keys.

Everything here moves bytes and text between the operating system and the
library.
-/

namespace LineStore.Programs

/-- The fault that an error of the operating system stands for. -/
def faultOf : IO.Error → IOFault
  | .noFileOrDirectory .. => FileTree.notFound
  | .inappropriateType .. => FileTree.isADirectory
  | error => ⟨.other, toString error⟩

/-- The content of a file, or the fault of reading it. -/
def readFile (path : String) : IO (Except IOFault Bytes) := do
  try
    let content ← IO.FS.readBinFile path
    return .ok content.toList
  catch error =>
    return .error (faultOf error)

/-- The settings file that a command line names, as the only file there is. -/
def filesFor (arguments : List String) : IO (String → Except IOFault Bytes) := do
  match Settings.serverProgram.parse arguments with
  | .error _ => return fun _ => .error FileTree.notFound
  | .ok parsed =>
    match (Settings.Request.of parsed).file? with
    | none => return fun _ => .error FileTree.notFound
    | some path =>
      let content ← readFile path
      return fun _ => content

/-- Prints what a program leaves behind, and ends with its exit code. -/
def conclude (result : ProgramResult) : IO UInt32 := do
  IO.print result.stdout
  IO.eprint result.stderr
  return result.exit.toUInt32

/-- Prints the log entries that a verbosity shows. -/
def printLog (verbosity : Log.Verbosity) (entries : List Log.Entry) : IO Unit :=
  for entry in verbosity.shown entries do
    IO.eprintln entry.render

/-- Passes bytes between the standard streams and one connection, until the
input or the connection ends. -/
partial def serve (verbosity : Log.Verbosity) (input output : IO.FS.Stream) (hub : Hub) :
    IO Hub := do
  let bytes ← input.read Hub.readSize.toUSize
  let stimulus := if bytes.isEmpty then .streamEnd 0 else .deliver 0 [bytes.toList]
  let (next, occurrences) := hub.step stimulus
  output.write ⟨(Hub.output occurrences 0).toArray⟩
  output.flush
  printLog verbosity (occurrences.flatMap Hub.Occurrence.entries)
  if next.live.isEmpty then return next else serve verbosity input output next

/-- The server program. -/
def server (arguments : List String) : IO UInt32 := do
  let environment? ← IO.getEnv "RUST_LOG"
  match Server.start .loopback (← filesFor arguments) environment? arguments with
  | .ended result => conclude result
  | .serving settings verbosity =>
    for line in Server.banner settings do
      IO.eprintln line
    printLog verbosity (Server.startEntries settings)
    let running := (Server.Running.empty settings).connect 0 true
    let hub ← serve verbosity (← IO.getStdin) (← IO.getStdout) running.hub
    let stopped := { running with hub }.signal
    printLog verbosity (Server.stopEntries settings hub stopped.hub)
    return 0

/-- The command-line client. -/
def cli (arguments : List String) : IO UInt32 := do
  let running := (Server.Running.empty .default).connect 0 false
  let input ← (← IO.getStdin).readBinToEnd
  let (result, _) :=
    Console.run .loopback (Hub.peer 0) (.start running.hub []) arguments input.toList
  conclude result

end LineStore.Programs

/-- Runs one of the two programs. -/
def main (arguments : List String) : IO UInt32 := do
  match arguments with
  | "server" :: rest => LineStore.Programs.server rest
  | "cli" :: rest => LineStore.Programs.cli rest
  | _ =>
    IO.eprintln "usage: (server | cli) [ARGUMENT]..."
    return 2
