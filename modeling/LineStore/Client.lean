import LineStore.IOFault
import LineStore.Reply
import LineStore.Text.Blank

/-!
# The client

A client sends one request line at a time and waits for the reply line.  The
reply carries no tag, so its meaning follows from the request: a `get` takes
any line without a space for a value.

* `Peer` is the other end of the connection, as a client meets it: it reacts
  to bytes with bytes.
* `Client.send` is one exchange; `Client.put`, `Client.get` and
  `Client.delete` put their arguments into a line and read the reply.
* `Client.callAll` is a sequence of calls.
-/

namespace LineStore

/-- Why a call failed. -/
inductive ClientError
  | notFound
  /-- The server refused to store a reserved value. -/
  | reservedKeyword (value : String)
  /-- The server did not take the line for a request. -/
  | invalidInput
  /-- The arguments cannot be sent. -/
  | invalidArgument (reason : String)
  /-- The server closed the connection instead of replying. -/
  | connectionClosed
  | unexpectedReply (reply : String)
  /-- The stream failed, or brought bytes that are no text. -/
  | io (fault : IOFault)
  deriving DecidableEq, Repr

def ClientError.message : ClientError → String
  | notFound => "key not found"
  | reservedKeyword value => s!"{value} is a reserved keyword"
  | invalidInput => "server rejected the request as invalid input"
  | invalidArgument reason => s!"invalid argument: {reason}"
  | connectionClosed => "connection closed by server"
  | unexpectedReply reply => s!"unexpected reply: {reply}"
  | io fault => s!"I/O error: {fault.text}"

/-- The other end of a client's connection.  It takes bytes and answers with
all the bytes that it sends before it takes more. -/
structure Peer (σ : Type) where
  react : σ → Bytes → Bytes × σ

/-- A peer that sends nothing more, whatever it takes. -/
def Peer.silent : Peer Unit := ⟨fun state _ => ([], state)⟩

/-- A client's connection: the state of the peer, the bytes received and not
yet read, and all the bytes sent. -/
structure Client (σ : Type) where
  peer : σ
  unread : Bytes
  sent : Bytes

namespace Client

variable {σ : Type}

/-- A client that has sent nothing, connected to a peer that has sent some
bytes. -/
def start (peer : σ) (unread : Bytes) : Client σ := ⟨peer, unread, []⟩

/-- The first line of some bytes, with its newline, and the rest.  The last
line may lack the newline.  There is no line in no bytes. -/
def firstLine? (bytes : Bytes) : Option (Bytes × Bytes) :=
  if bytes.isEmpty then none
  else
    match Bytes.lineEnd? bytes with
    | some size => some (bytes.take (size + 1), bytes.drop (size + 1))
    | none => some (bytes, [])

/-- A text without the newlines and carriage returns at its end. -/
def withoutLineEnd (text : List Char) : List Char :=
  (text.reverse.dropWhile fun c => c == '\n' || c == '\r').reverse

/-- A request line as the caller gave it, without the newline that may end
it. -/
def requestLine (line : String) : List Char :=
  let text := line.toList
  if text.getLast? = some '\n' then text.dropLast else text

/-- Sends one line and returns the reply, without its line end. -/
def send (react : Peer σ) (client : Client σ) (line : String) :
    Except ClientError String × Client σ :=
  let request := requestLine line
  if '\n' ∈ request then
    (.error (.invalidArgument "request must be a single line"), client)
  else
    let bytes := Utf8.encode request ++ [Bytes.newline]
    let (received, peer) := react.react client.peer bytes
    let unread := client.unread ++ received
    let sent := client.sent ++ bytes
    match firstLine? unread with
    | none => (.error .connectionClosed, ⟨peer, unread, sent⟩)
    | some (reply, unread) =>
      match Utf8.decode reply with
      | .ok text => (.ok (String.ofList (withoutLineEnd text)), ⟨peer, unread, sent⟩)
      | .error _ => (.error (.io .notText), ⟨peer, unread, sent⟩)

/-- Checks that an argument is a single word.  `what` names it. -/
def checkWord (what : String) (argument : String) : Except ClientError Unit :=
  if argument.toList.isEmpty then .error (.invalidArgument s!"{what} is empty")
  else if argument.toList.any Text.isBlank then
    .error (.invalidArgument s!"{what} contains whitespace")
  else .ok ()

/-- The error that a reply reports which is not the one hoped for. -/
def errorOf (reply : String) : ClientError :=
  if reply = Reply.notFoundText then .notFound
  else if reply = Reply.invalidInputText then .invalidInput
  else
    let opening := (Reply.reservedKeywordText ++ " ").toList
    if opening.isPrefixOf reply.toList then
      .reservedKeyword (String.ofList (reply.toList.drop opening.length))
    else .unexpectedReply reply

def readDone (reply : String) : Except ClientError Unit :=
  if reply = Reply.okText then .ok () else .error (errorOf reply)

def readValue (reply : String) : Except ClientError (Option String) :=
  if reply = Reply.notFoundText then .ok none
  else if reply = Reply.invalidInputText then .error .invalidInput
  else if reply.toList.isEmpty || reply.toList.contains ' ' then .error (.unexpectedReply reply)
  else .ok (some reply)

/-- Sends a line and reads the reply to it, if the arguments are fit to be
sent. -/
def exchange {α : Type} (react : Peer σ) (client : Client σ)
    (check : Except ClientError Unit) (line : String)
    (read : String → Except ClientError α) : Except ClientError α × Client σ :=
  match check with
  | .error error => (.error error, client)
  | .ok () =>
    let (reply, next) := client.send react line
    (reply.bind read, next)

def put (react : Peer σ) (client : Client σ) (key value : String) :
    Except ClientError Unit × Client σ :=
  client.exchange react
    (do checkWord "key" key; checkWord "value" value) s!"PUT {key} {value}" readDone

def get (react : Peer σ) (client : Client σ) (key : String) :
    Except ClientError (Option String) × Client σ :=
  client.exchange react (checkWord "key" key) s!"GET {key}" readValue

def delete (react : Peer σ) (client : Client σ) (key : String) :
    Except ClientError Unit × Client σ :=
  client.exchange react (checkWord "key" key) s!"DELETE {key}" readDone

/-- A call of a client. -/
inductive Call
  | put (key value : String)
  | get (key : String)
  | delete (key : String)
  | send (line : String)
  deriving DecidableEq, Repr

/-- What a successful call returns. -/
inductive Returned
  | done
  | value (value? : Option String)
  | reply (text : String)
  deriving DecidableEq, Repr

def call (react : Peer σ) (client : Client σ) :
    Call → Except ClientError Returned × Client σ
  | .put key value =>
    let (result, next) := client.put react key value
    (result.map fun () => .done, next)
  | .get key =>
    let (result, next) := client.get react key
    (result.map .value, next)
  | .delete key =>
    let (result, next) := client.delete react key
    (result.map fun () => .done, next)
  | .send line =>
    let (result, next) := client.send react line
    (result.map .reply, next)

def callAll (react : Peer σ) (client : Client σ) :
    List Call → List (Except ClientError Returned) × Client σ
  | [] => ([], client)
  | first :: rest =>
    let (result, next) := client.call react first
    let (results, last) := callAll react next rest
    (result :: results, last)

end Client

end LineStore
