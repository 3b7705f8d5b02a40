import LineStore.Command.Execution
import LineStore.Connection.Sink
import LineStore.Shutdown
import LineStore.Traffic

/-!
# A connection

A connection reads request lines from one client and answers each before it
looks at the next.  Received bytes wait in a buffer until a newline completes
a line.  A line longer than the limit ends the connection, and so do the end
of the stream, a fault and the shutdown signal.

* `Connection` is the state, `Connection.Event` what can be seen of it.
* `Event.entries` is the log that the events leave.
-/

namespace LineStore

/-- Why a connection ended, other than by shutdown. -/
inductive ConnectionError
  /-- A read, a write or a flush failed. -/
  | io (fault : IOFault)
  /-- The stream ended between two lines. -/
  | clientDisconnected
  /-- The stream ended within a line. -/
  | unexpectedEof
  /-- A line was longer than `max` bytes. -/
  | lineTooLong (max : Nat)
  deriving DecidableEq, Repr

/-- The wording of an error. -/
def ConnectionError.message : ConnectionError → String
  | io fault => s!"I/O error: {fault.text}"
  | clientDisconnected => "Client disconnected"
  | unexpectedEof => "Unexpected end of stream"
  | lineTooLong max => s!"Line exceeds {max} bytes"

/-- How a connection ended. -/
inductive Outcome
  /-- It was closed for shutdown. -/
  | closed
  /-- An error ended it. -/
  | failed (error : ConnectionError)
  deriving DecidableEq, Repr

/-- What one read of the client's stream brings. -/
inductive Arrival
  /-- Some bytes.  No bytes at all mean the end of the stream. -/
  | data (bytes : Bytes)
  /-- A fault. -/
  | fault (fault : IOFault)
  /-- The end of the stream. -/
  | streamEnd
  deriving DecidableEq, Repr

/-- What a connection is about to do. -/
inductive Connection.Phase
  /-- It has done nothing yet. -/
  | fresh
  /-- It looks for the next line in its buffer, or reads. -/
  | reading
  /-- A line was executed.  `rest` is what the client's stream has not taken
  of the reply. -/
  | replying (reply : Reply) (rest : Bytes)
  deriving DecidableEq, Repr

/-- One client's connection. -/
structure Connection where
  /-- The client's address. -/
  client : String
  /-- The longest line accepted, without its newline. -/
  maxLine : Nat
  /-- Whether nobody waits for the outcome, so that an error is logged again. -/
  detached : Bool
  /-- The connection's ear for the shutdown signal. -/
  listener : Listener
  /-- The sending half of the stream. -/
  sink : Sink
  /-- The results of the reads to come. -/
  arrivals : List Arrival
  /-- The bytes received and not yet taken as lines. -/
  buffer : Bytes
  phase : Connection.Phase

/-- What all connections of a server share. -/
structure Shared where
  store : Store
  traffic : Traffic
  signal : Signal

namespace Connection

/-- The longest line accepted unless something else is said. -/
def defaultMaxLine : Nat := 64 * 1024

/-- Something that happens on a connection. -/
inductive Event
  /-- The connection started. -/
  | connected
  /-- A read brought bytes. -/
  | received (bytes : Bytes)
  /-- A line was taken from the buffer, and `left` bytes stayed. -/
  | framed (line : Bytes) (left : Nat)
  /-- The line was executed, or was no request. -/
  | answered (record : Execution.Record)
  /-- The client's stream took bytes of a reply. -/
  | accepted (bytes : Bytes)
  /-- A reply was sent in full. -/
  | sent (reply : Reply)
  /-- A line of `size` bytes, or the start of one, exceeded the limit. -/
  | tooLong (size max : Nat)
  /-- The shutdown signal was noticed. -/
  | closing
  /-- The connection ended. -/
  | ended (detached : Bool) (outcome : Outcome)
  deriving DecidableEq, Repr

/-- Tells whether an error is an ordinary end, which nobody need be told of. -/
def isOrdinaryEnd : ConnectionError → Bool
  | .clientDisconnected => true
  | .io fault => fault.kind = .connectionReset
  | _ => false

/-- The log entry for an outcome, for the client at the given address. -/
def outcomeEntry (client : String) : Outcome → Log.Entry
  | .closed => ⟨.debug, "Connection closed for shutdown", [("client", client)]⟩
  | .failed .clientDisconnected => ⟨.debug, "Client disconnected", [("client", client)]⟩
  | .failed error =>
    if isOrdinaryEnd error then
      ⟨.debug, "Connection reset by client", [("client", client)]⟩
    else
      ⟨.warn, "Connection error", [("client", client), ("error", error.message)]⟩

/-- The second entry for an outcome that nobody waits for. -/
def detachedEntries (client : String) : Outcome → List Log.Entry
  | .closed => []
  | .failed error =>
    if isOrdinaryEnd error then []
    else
      [⟨.debug, "Connection ended with error",
        [("client", client), ("error", error.message)]⟩]

/-- The log entries of an event, for the client at the given address. -/
def Event.entries (client : String) : Event → List Log.Entry
  | connected => [⟨.info, "Client connected", [("client", client)]⟩]
  | received bytes =>
    [⟨.trace, "Read data", [("client", client), ("bytes", toString bytes.length)]⟩]
  | framed line left =>
    [⟨.trace, "Framed line",
      [("client", client), ("consumed", toString (line.length + 1)),
        ("remaining", toString left)]⟩]
  | answered record => [record.entry]
  | accepted _ => []
  | sent reply =>
    [⟨.trace, "Sent reply",
      [("client", client), ("bytes", toString reply.wire.length)]⟩]
  | tooLong size max =>
    [⟨.warn, "Line length limit exceeded",
      [("client", client), ("size", toString size), ("max", toString max)]⟩]
  | closing => [⟨.debug, "Closing connection for server shutdown", [("client", client)]⟩]
  | ended detached outcome =>
    outcomeEntry client outcome :: if detached then detachedEntries client outcome else []

end Connection

end LineStore
