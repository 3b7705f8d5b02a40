import LineStore.Client
import LineStore.CommandLine.Help
import LineStore.Network
import LineStore.Report
import LineStore.Settings.Load

/-!
# The command-line client

With a request on its command line, the client program sends it and prints the
reply.  Without one it prompts for requests, reads them from standard input,
and goes on until the input ends or a line says `quit` or `exit`.

* `Console.session` is the dialogue over some input.
* `Console.run` is the whole program: command line, connection, requests.
-/

namespace LineStore.Console

open CommandLine

variable {σ : Type}

/-- The client program, as its command line knows it. -/
def program : Program :=
  { name := "mangokv-cli"
    version := Settings.version
    about := "Command-line client for MangoKV"
    switches :=
      [⟨some 'H', "host", .text, "Server host", some Settings.defaultHost⟩,
        ⟨some 'p', "port", .number Settings.Layer.maxPort true, "Server port",
          some (toString Settings.defaultPort)⟩]
    operands? :=
      some ⟨"COMMAND",
        "Request to send, e.g. `PUT name mango`; omit for interactive mode"⟩ }

/-- The lines of an input, without their line ends. -/
def inputLines (input : Bytes) : List Bytes :=
  let (lines, tail) := Bytes.cutLines input
  let withoutReturn (line : Bytes) : Bytes :=
    if line.getLast? = some 13 then line.dropLast else line
  lines.map withoutReturn ++ if tail.isEmpty then [] else [tail]

/-- Tells whether a line asks for the end of the dialogue. -/
def isFarewell (line : List Char) : Bool :=
  let word := line.map Char.toLower
  word == "quit".toList || word == "exit".toList

/-- What a line of input asks for. -/
inductive Entry
  /-- Nothing: the line is blank. -/
  | nothing
  | farewell
  | request (line : List Char)
  deriving DecidableEq, Repr

def Entry.of (line : List Char) : Entry :=
  let text := Text.trim line
  if text.isEmpty then .nothing
  else if isFarewell text then .farewell
  else .request text

/-- The result of a dialogue: what was printed, the error that ended it, if
one did, and the client. -/
structure Dialogue (σ : Type) where
  printed : String
  error? : Option Report
  client : Client σ

def reportOf : ClientError → Report
  | .io fault => ⟨ClientError.message (.io fault), [fault.text]⟩
  | error => ⟨error.message, []⟩

/-- The dialogue over some lines of input.  `printed` holds what was printed
before. -/
def session (react : Peer σ) (prompt : String) (client : Client σ) (printed : String) :
    List Bytes → Dialogue σ
  | [] => ⟨printed ++ prompt ++ "\n", none, client⟩
  | line :: rest =>
    let printed := printed ++ prompt
    match Utf8.decode line with
    | .error _ => ⟨printed, some ⟨IOFault.notText.text, []⟩, client⟩
    | .ok text =>
      match Entry.of text with
      | .nothing => session react prompt client printed rest
      | .farewell => ⟨printed, none, client⟩
      | .request request =>
        match client.send react (String.ofList request) with
        | (.error error, client) => ⟨printed, some (reportOf error), client⟩
        | (.ok reply, client) => session react prompt client (printed ++ reply ++ "\n") rest

def single (react : Peer σ) (client : Client σ) (words : List String) : Dialogue σ :=
  match client.send react (" ".intercalate words) with
  | (.error error, client) => ⟨"", some (reportOf error), client⟩
  | (.ok reply, client) => ⟨reply ++ "\n", none, client⟩

/-- What the program leaves behind after a dialogue. -/
def Dialogue.result (dialogue : Dialogue σ) : ProgramResult :=
  match dialogue.error? with
  | none => ⟨0, dialogue.printed, ""⟩
  | some report => ⟨1, dialogue.printed, report.render⟩

/-- What a program leaves behind whose command line stopped it. -/
def stopped (program : Program) : Stop → ProgramResult
  | .help => ⟨0, program.helpText, ""⟩
  | .version => ⟨0, program.versionText, ""⟩
  | .misuse _ => ⟨2, "", ""⟩

/-- The report of a call that did not get through. -/
def noConnection (address : String) (fault : IOFault) : Report :=
  ⟨s!"failed to connect to {address}", [ClientError.message (.io fault), fault.text]⟩

/-- The whole program.  `client` is the connection that it gets, if the call
gets through. -/
def run (network : Network) (react : Peer σ) (client : Client σ) (arguments : List String)
    (input : Bytes) : ProgramResult × Client σ :=
  match program.parse arguments with
  | .error stop => (stopped program stop, client)
  | .ok parsed =>
    let host := (parsed.text? "host").getD Settings.defaultHost
    let port := (parsed.number? "port").getD Settings.defaultPort
    let address := s!"{host}:{port}"
    match network.callFault? host port with
    | some fault => (⟨1, "", (noConnection address fault).render⟩, client)
    | none =>
      let dialogue :=
        if parsed.operands.isEmpty then
          session react s!"{address}> " client "" (inputLines input)
        else single react client parsed.operands
      (dialogue.result, dialogue.client)

end LineStore.Console
