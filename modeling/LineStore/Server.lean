import LineStore.Client
import LineStore.Hub
import LineStore.Network
import LineStore.Settings

/-!
# The server

The server binds to its address, and then serves every client that connects.
When it is told to stop it signals all connections, waits for them as long as
the settings say, and drops those that are stuck in a write.

* `Server.bind` is the only thing that can fail at the start.
* `Server.Running` is a running server with its clients, as they meet it.
-/

namespace LineStore

/-- Why a server does not run. -/
inductive ServerError
  /-- The address could not be bound to. -/
  | bind (address : String) (fault : IOFault)
  /-- Another request to the operating system failed. -/
  | io (fault : IOFault)
  deriving DecidableEq, Repr

def ServerError.message : ServerError → String
  | bind address fault => s!"failed to bind {address}: {fault.text}"
  | io fault => s!"I/O error: {fault.text}"

/-- A connection of a hub, as its client meets it. -/
def Hub.peer (id : Nat) : Peer Hub :=
  { react := fun hub bytes =>
      let (next, occurrences) := hub.step (.send id bytes)
      (Hub.output occurrences id, next) }

namespace Server

/-- Binds a server to its address. -/
def bind (network : Network) (settings : Settings) : Except ServerError Unit :=
  match network.bindFault? settings.host settings.port with
  | some fault => .error (.bind settings.address fault)
  | none => .ok ()

def setup (settings : Settings) (client : String) : Hub.Setup :=
  { client
    maxLine := settings.maxLine
    detached := true
    attached := true
    sink := .unlimited }

/-- A client of a running server: the bytes received and not yet read, and
whether it is a bare socket. -/
structure Remote where
  isRaw : Bool
  unread : Bytes
  deriving DecidableEq, Repr

/-- A running server and its clients, by the numbers of their connections. -/
structure Running where
  settings : Settings
  hub : Hub
  remotes : List (Nat × Remote)

def Running.empty (settings : Settings) : Running :=
  ⟨settings, Hub.new .new (.new false), []⟩

namespace Running

def remote? (running : Running) (id : Nat) : Option Remote :=
  running.remotes.lookup id

def setRemote (running : Running) (id : Nat) (remote : Remote) : Running :=
  { running with remotes := running.remotes.filter (·.1 ≠ id) ++ [(id, remote)] }

def connect (running : Running) (id : Nat) (isRaw : Bool) : Running :=
  let hub := (running.hub.step (.connect id (setup running.settings "127.0.0.1:50000"))).1
  { running with hub }.setRemote id ⟨isRaw, []⟩

def call (running : Running) (id : Nat) (remote : Remote) (call : Client.Call) :
    Except ClientError Client.Returned × Running :=
  let (result, client) := Client.call (Hub.peer id) (.start running.hub remote.unread) call
  (result, { running with hub := client.peer }.setRemote id { remote with unread := client.unread })

/-- The first complete lines of some bytes, at most `count`, and the rest. -/
def takeLines : Nat → Bytes → List Bytes × Bytes
  | 0, bytes => ([], bytes)
  | count + 1, bytes =>
    match Bytes.lineEnd? bytes with
    | none => ([], bytes)
    | some size =>
      let (lines, rest) := takeLines count (bytes.drop (size + 1))
      (bytes.take (size + 1) :: lines, rest)

/-- A bare socket sends bytes and reads a reply for each newline in them.  The
answer says as well whether the server hung up before the last reply. -/
def exchange (running : Running) (id : Nat) (remote : Remote) (bytes : Bytes) :
    List Bytes × Bool × Running :=
  let wanted := bytes.count Bytes.newline
  let (received, hub) := (Hub.peer id).react running.hub bytes
  let (replies, unread) := takeLines wanted (remote.unread ++ received)
  (replies, replies.length < wanted, { running with hub }.setRemote id { remote with unread })

def close (running : Running) (id : Nat) : Running :=
  { running with
    hub := (running.hub.step (.streamEnd id)).1
    remotes := running.remotes.filter (·.1 ≠ id) }

/-- A client sends bytes and reads nothing, so that the replies to it get
stuck. -/
def flood (running : Running) (id : Nat) (bytes : Bytes) : Running :=
  { running with hub := (running.hub.run [.allow id (some 0), .send id bytes]).1 }

/-- The server is told to stop, and signals its connections. -/
def signal (running : Running) : Running :=
  { running with hub := (running.hub.step (.signal true)).1 }

/-- The server drops the connections that are still live when the time is
up. -/
def cutOff (running : Running) : Running :=
  { running with hub := { running.hub with live := [] } }

def stop (running : Running) : Running :=
  running.signal.cutOff

end Running

end Server

end LineStore
