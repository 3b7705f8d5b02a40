import LineStore.Connection

/-!
# The steps of a connection

A connection alternates between taking lines from its buffer, sending
replies, and reading.  `Connection.step` is one such step.  It waits when the
client's stream has nothing to read, or takes nothing.

The branches that end or that go on are functions of their own, so that each
can be looked at alone.
-/

namespace LineStore.Connection

/-- The result of one step. -/
inductive Progress
  | waits
  | goes (shared : Shared) (connection : Connection) (events : List Event)
  | ends (shared : Shared) (events : List Event)

def finish (connection : Connection) (shared : Shared) (events : List Event)
    (outcome : Outcome) : Progress :=
  .ends { shared with traffic := shared.traffic.closed }
    (events ++ [.ended connection.detached outcome])

/-- Ends a connection that was sent too long a line. -/
def finishTooLong (connection : Connection) (shared : Shared) (size : Nat) : Progress :=
  connection.finish shared [.tooLong size connection.maxLine]
    (.failed (.lineTooLong connection.maxLine))

/-- Takes the line of `size` bytes from the buffer and executes it. -/
def answerLine (connection : Connection) (shared : Shared) (size : Nat) : Progress :=
  let line := connection.buffer.take size
  let buffer := connection.buffer.drop (size + 1)
  let execution := Command.executeLine shared.store line
  .goes
    { shared with store := execution.store, traffic := shared.traffic.processed }
    { connection with buffer, phase := .replying execution.reply execution.reply.wire }
    [.framed line buffer.length, .answered execution.record]

/-- Sends what is left of a reply. -/
def sendRest (connection : Connection) (shared : Shared) (reply : Reply) (rest : Bytes) :
    Progress :=
  let pushed := connection.sink.push rest.length
  let events := if pushed.taken = 0 then [] else [.accepted (rest.take pushed.taken)]
  match pushed.stop with
  | .waiting =>
    if pushed.taken = 0 then .waits
    else
      .goes shared
        { connection with
          sink := pushed.sink, phase := .replying reply (rest.drop pushed.taken) }
        events
  | .failed fault => connection.finish shared events (.failed (.io fault))
  | .complete =>
    match pushed.sink.flush with
    | .error fault => connection.finish shared events (.failed (.io fault))
    | .ok sink =>
      .goes { shared with traffic := shared.traffic.sent reply.wire.length }
        { connection with sink, phase := .reading }
        (events ++ [.sent reply])

def read (connection : Connection) (shared : Shared) : Progress :=
  let endOfStream :=
    connection.finish shared []
      (.failed (if connection.buffer.isEmpty then .clientDisconnected else .unexpectedEof))
  match connection.arrivals with
  | [] => .waits
  | .streamEnd :: _ => endOfStream
  | .fault fault :: _ => connection.finish shared [] (.failed (.io fault))
  | .data bytes :: arrivals =>
    if bytes.isEmpty then endOfStream
    else
      .goes { shared with traffic := shared.traffic.received bytes.length }
        { connection with arrivals, buffer := connection.buffer ++ bytes }
        [.received bytes]

/-- Goes on when the buffer holds no complete line: ends the connection if it
was signalled or the line to come is too long already, and otherwise waits for
the signal and for the client.

Neither of the two waits comes before the other by itself.  But as long as the
signal is given, the client's stream brings nothing to a connection that follows
it, so that where both are there it is the signal that is noticed. -/
def readMore (connection : Connection) (shared : Shared) : Progress :=
  if connection.listener.signalled then connection.finish shared [] .closed
  else if connection.maxLine < connection.buffer.length then
    connection.finishTooLong shared connection.buffer.length
  else
    match connection.listener.poll shared.signal with
    | (true, listener) => .goes shared { connection with listener } [.closing]
    | (false, _) => connection.read shared

/-- One step of a connection. -/
def step (connection : Connection) (shared : Shared) : Progress :=
  match connection.phase with
  | .fresh => .goes shared { connection with phase := .reading } [.connected]
  | .replying reply rest => connection.sendRest shared reply rest
  | .reading =>
    match Bytes.lineEnd? connection.buffer with
    | some size =>
      if connection.maxLine < size then connection.finishTooLong shared size
      else connection.answerLine shared size
    | none => connection.readMore shared

end LineStore.Connection
