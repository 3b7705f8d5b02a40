import LineStore.Connection.Settle

/-!
# Many connections over one store

A hub holds the live connections of a server by number, together with the
store, the counters and the shutdown signal that they share.  Something
happens outside, a stimulus, and then every live connection in turn, the
lowest number first, goes on until it waits.

* `Hub.step` is one stimulus, with the occurrences it leads to.
* `Hub.run` is a sequence of stimuli, with the occurrences that each leads to.
-/

namespace LineStore

/-- The live connections of a server, in ascending order of their numbers. -/
structure Hub where
  shared : Shared
  live : List (Nat × Connection)

namespace Hub

/-- What a new connection is like. -/
structure Setup where
  client : String
  maxLine : Nat
  detached : Bool
  attached : Bool
  sink : Sink

/-- Something that happens to the connections from outside. -/
inductive Stimulus
  /-- A client connects.  An older connection with the number is dropped. -/
  | connect (id : Nat) (setup : Setup)
  /-- What the next reads of a client's stream bring, one after another.  A read
  that brings no bytes is the end of the stream. -/
  | deliver (id : Nat) (reads : List Bytes)
  | streamEnd (id : Nat)
  | readFault (id : Nat) (fault : IOFault)
  /-- From now on a client's stream takes this many bytes, or any number, and
  then makes writes wait. -/
  | allow (id : Nat) (allowance? : Option Nat)
  /-- A connection is dropped as it is. -/
  | abort (id : Nat)
  | signal (value : Bool)
  /-- The sender of the shutdown signal is given up. -/
  | dropSender

/-- An event, with the number of its connection and its client's address. -/
structure Occurrence where
  id : Nat
  client : String
  event : Connection.Event

def Occurrence.entries (occurrence : Occurrence) : List Log.Entry :=
  occurrence.event.entries occurrence.client

/-- The size of the reads that bring what a client sends at once. -/
def readSize : Nat := 1024

/-- A client sends bytes at once, and its stream brings them `readSize` at a time.
Any other reads can be given to `deliver`. -/
def Stimulus.send (id : Nat) (bytes : Bytes) : Stimulus :=
  .deliver id (Bytes.pieces readSize bytes)

def new (store : Store) (signal : Signal) : Hub :=
  ⟨⟨store, .zero, signal⟩, []⟩

def Setup.connection (setup : Setup) : Connection :=
  { client := setup.client
    maxLine := setup.maxLine
    detached := setup.detached
    listener := if setup.attached then .new else .never
    sink := setup.sink
    arrivals := []
    buffer := []
    phase := .fresh }

/-- Puts a connection in its place among the live ones, instead of the one
with its number. -/
def insert (id : Nat) (connection : Connection) :
    List (Nat × Connection) → List (Nat × Connection)
  | [] => [(id, connection)]
  | (other, old) :: rest =>
    if id < other then (id, connection) :: (other, old) :: rest
    else if id = other then (id, connection) :: rest
    else (other, old) :: insert id connection rest

/-- Changes the live connection with a number, if there is one. -/
def modify (hub : Hub) (id : Nat) (change : Connection → Connection) : Hub :=
  { hub with
    live := hub.live.map fun (other, connection) =>
      (other, if other = id then change connection else connection) }

def queue (hub : Hub) (id : Nat) (arrivals : List Arrival) : Hub :=
  hub.modify id fun connection =>
    { connection with arrivals := connection.arrivals ++ arrivals }

/-- The hub right after a stimulus, before any connection takes notice. -/
def apply (hub : Hub) : Stimulus → Hub
  | .connect id setup =>
    { shared := { hub.shared with traffic := hub.shared.traffic.opened }
      live := insert id setup.connection hub.live }
  | .deliver id reads => hub.queue id (reads.map .data)
  | .streamEnd id => hub.queue id [.streamEnd]
  | .readFault id fault => hub.queue id [.fault fault]
  | .allow id allowance? =>
    hub.modify id fun connection =>
      { connection with sink := { connection.sink with allowance? } }
  | .abort id => { hub with live := hub.live.filter fun (other, _) => other ≠ id }
  | .signal value =>
    { hub with shared := { hub.shared with signal := (hub.shared.signal.send value).2 } }
  | .dropSender =>
    { hub with shared := { hub.shared with signal := hub.shared.signal.dropSender.2 } }

/-- Lets connections go on in turn until each waits or has ended. -/
def settleAll : Shared → List (Nat × Connection) → Hub × List Occurrence
  | shared, [] => (⟨shared, []⟩, [])
  | shared, (id, connection) :: rest =>
    let settled := connection.settle shared
    let (hub, later) := settleAll settled.shared rest
    let own := settled.events.map fun event => ⟨id, connection.client, event⟩
    ({ hub with
        live := (settled.connection?.map fun next => (id, next)).toList ++ hub.live },
      own ++ later)

/-- One stimulus, and everything it leads to. -/
def step (hub : Hub) (stimulus : Stimulus) : Hub × List Occurrence :=
  let hub := hub.apply stimulus
  settleAll hub.shared hub.live

/-- A sequence of stimuli, and everything that each of them leads to. -/
def run (hub : Hub) : List Stimulus → Hub × List (List Occurrence)
  | [] => (hub, [])
  | stimulus :: rest =>
    let (next, now) := hub.step stimulus
    let (last, later) := run next rest
    (last, now :: later)

/-- The bytes that a client's stream took, among the given occurrences. -/
def output (occurrences : List Occurrence) (id : Nat) : Bytes :=
  occurrences.flatMap fun occurrence =>
    match occurrence.event with
    | .accepted bytes => if occurrence.id = id then bytes else []
    | _ => []

/-- The connections that ended, among the given occurrences: number, whether
nobody waits for the outcome, and the outcome. -/
def endings (occurrences : List Occurrence) : List (Nat × Bool × Outcome) :=
  occurrences.filterMap fun occurrence =>
    match occurrence.event with
    | .ended detached outcome => some (occurrence.id, detached, outcome)
    | _ => none

end Hub

end LineStore
