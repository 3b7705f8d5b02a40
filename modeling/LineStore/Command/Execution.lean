import LineStore.Command.Line
import LineStore.Log
import LineStore.Reply
import LineStore.Store

/-!
# Executing requests

A request line is read, done on the store, and answered.  A line that is no
request reaches no store and is answered `INVALID INPUT`.

* `Command.execute` does one command.
* `Command.executeLine` does one line.  `Execution.record` says what happened,
  for the log.
* `Command.executeLines` does lines one after another.
-/

namespace LineStore

/-- What became of a request line. -/
inductive Execution.Record
  | rejected (error : RequestError)
  | executed (command : Command Bytes) (reply : Reply)
  deriving DecidableEq, Repr

/-- The answer to a request, the store after it, and what to log of it. -/
structure Execution where
  reply : Reply
  store : Store
  record : Execution.Record

namespace Execution

def Record.entry : Record → Log.Entry
  | rejected error => ⟨.debug, "Rejected request line", [("error", error.message)]⟩
  | executed command reply =>
    ⟨.trace, "Executed command",
      [("command", s!"\"{command.verb.name}\""), ("key", Utf8.decodeLossy command.key),
        ("failed", toString reply.isError)]⟩

end Execution

/-- The reply that reports an answer of the store. -/
def Store.Answer.reply : Store.Answer → Reply
  | stored _ => .ok
  | refused (.reservedValue value) => .reservedKeyword value
  | found (some value) => .value value
  | found none => .notFound
  | deleted true => .ok
  | deleted false => .notFound

/-- A one-line summary of what executes commands on a store. -/
def Store.handlerSummary (store : Store) : String :=
  s!"CommandHandler \x7b storage: {store.summary} \x7d"

namespace Command

/-- Does a command on a store. -/
def execute (store : Store) (command : Command Bytes) : Execution :=
  let (answer, next) := store.apply command
  ⟨answer.reply, next, .executed command answer.reply⟩

/-- Does what was read from a line; a line that could not be read changes
nothing. -/
def executeRead (store : Store) : Except RequestError (Command Bytes) → Execution
  | .ok command => execute store command
  | .error error => ⟨.invalidInput, store, .rejected error⟩

/-- Reads a request line and does what it asks for. -/
def executeLine (store : Store) (line : Bytes) : Execution :=
  executeRead store ((ofLine line).map (Command.map Text.Word.bytes))

/-- Does request lines one after another: the replies, and the store after
them. -/
def executeLines (store : Store) : List Bytes → List Reply × Store
  | [] => ([], store)
  | line :: rest =>
    let execution := executeLine store line
    let (replies, last) := executeLines execution.store rest
    (execution.reply :: replies, last)

end Command

end LineStore
