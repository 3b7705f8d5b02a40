import LineStore.Client
import LineStore.Proofs.Lines
import LineStore.Proofs.RequestText

/-!
# What a client makes of its calls

A client puts the arguments of a call into a request line and reads the reply
line as the request makes it expect.  This module follows both directions, for
any peer.

* `Client.refusal?` is the check of the arguments.  It passes words and nothing
  else, by `Client.refusal?_eq_none_iff`.
* `Client.toList_lineOf` says that the line sent is the request line of the
  command.
* `Client.call_of_reply` is one exchange with a peer that answers with one line
  of text.
* The `readReply` lemmas are the readings of the replies that can come.
-/

namespace LineStore

namespace Command

def chars (command : Command String) : Command (List Char) :=
  command.map String.toList

/-- A command that a client can send: its arguments are words. -/
def Sendable (command : Command String) : Prop :=
  ∀ text ∈ command.chars.arguments, Text.IsWord text

instance (command : Command String) : Decidable command.Sendable :=
  inferInstanceAs (Decidable (∀ text ∈ command.chars.arguments, Text.IsWord text))

/-- The bytes of a command's request line, without the newline. -/
def requestBytes (command : Command String) : Bytes :=
  Utf8.encode command.chars.requestText

theorem newline_notMem_requestBytes {command : Command String} (h : command.Sendable) :
    Bytes.newline ∉ command.requestBytes :=
  fun hmem => newline_notMem_requestText h (Utf8.newline_mem_encode.mp hmem)

end Command

namespace Client

/-- The call that asks for a command. -/
def Call.ofCommand : Command String → Call
  | .put key value => .put key value
  | .get key => .get key
  | .delete key => .delete key

/-! ## The request -/

/-- What is wrong with an argument: it is empty, or there is a blank in it. -/
def complaint? (what argument : String) : Option ClientError :=
  if argument.toList = [] then some (.invalidArgument s!"{what} is empty")
  else if argument.toList.any Text.isBlank then
    some (.invalidArgument s!"{what} contains whitespace")
  else none

/-- What is wrong with the arguments of a command, the key before the
value. -/
def refusal? : Command String → Option ClientError
  | .put key value => (complaint? "key" key).or (complaint? "value" value)
  | .get key => complaint? "key" key
  | .delete key => complaint? "key" key

/-- A check that finds something wrong, or does not. -/
def outcomeOf : Option ClientError → Except ClientError Unit
  | some error => .error error
  | none => .ok ()

theorem checkWord_eq (what argument : String) :
    checkWord what argument = outcomeOf (complaint? what argument) := by
  unfold checkWord complaint?
  by_cases hempty : argument.toList = []
  · simp [hempty, outcomeOf]
  · rw [if_neg (by simpa using hempty), if_neg hempty]
    split <;> rfl

theorem checkWords_eq (key value : String) :
    (do checkWord "key" key; checkWord "value" value) =
      outcomeOf ((complaint? "key" key).or (complaint? "value" value)) := by
  rw [checkWord_eq, checkWord_eq]
  cases complaint? "key" key <;> rfl

theorem complaint?_eq_none_iff {what argument : String} :
    complaint? what argument = none ↔ Text.IsWord argument.toList := by
  unfold complaint?
  rw [Text.isWord_iff, List.isEmpty_eq_false_iff]
  by_cases hempty : argument.toList = []
  · simp [hempty]
  · rw [if_neg hempty]
    split
    · rename_i hblank
      simp [hblank]
    · rename_i hblank
      simpa [hempty] using hblank

theorem refusal?_eq_none_iff {command : Command String} :
    refusal? command = none ↔ command.Sendable := by
  unfold Command.Sendable Command.chars
  cases command with
  | put key value =>
    simp [refusal?, Command.map, Command.arguments, complaint?_eq_none_iff]
  | get key => simp [refusal?, Command.map, Command.arguments, complaint?_eq_none_iff]
  | delete key => simp [refusal?, Command.map, Command.arguments, complaint?_eq_none_iff]

theorem complaint?_eq_some {what argument : String} {error : ClientError}
    (h : complaint? what argument = some error) : ∃ reason, error = .invalidArgument reason := by
  unfold complaint? at h
  split at h
  · exact ⟨_, (Option.some.inj h).symm⟩
  · split at h
    · exact ⟨_, (Option.some.inj h).symm⟩
    · simp at h

theorem refusal?_eq_some {command : Command String} {error : ClientError}
    (h : refusal? command = some error) : ∃ reason, error = .invalidArgument reason := by
  cases command with
  | put key value =>
    rcases Option.or_eq_some_iff.mp h with hkey | ⟨-, hvalue⟩
    · exact complaint?_eq_some hkey
    · exact complaint?_eq_some hvalue
  | get key => exact complaint?_eq_some h
  | delete key => exact complaint?_eq_some h

/-- The line that a client writes for a command. -/
def lineOf : Command String → String
  | .put key value => s!"PUT {key} {value}"
  | .get key => s!"GET {key}"
  | .delete key => s!"DELETE {key}"

theorem toList_lineOf (command : Command String) :
    (lineOf command).toList = command.chars.requestText := by
  cases command with
  | put key value =>
    simp [lineOf, toString, Command.chars, Command.map, Command.requestText, Command.arguments,
      Command.verb, Verb.name]
  | get key =>
    simp [lineOf, toString, Command.chars, Command.map, Command.requestText, Command.arguments,
      Command.verb, Verb.name]
  | delete key =>
    simp [lineOf, toString, Command.chars, Command.map, Command.requestText, Command.arguments,
      Command.verb, Verb.name]

/-! ## The reply -/

/-- What a reply to a command means to the client. -/
def readReply (reply : String) : Command String → Except ClientError Returned
  | .put .. => (readDone reply).map fun () => .done
  | .get _ => (readValue reply).map .value
  | .delete _ => (readDone reply).map fun () => .done

variable {σ : Type} {react : Peer σ} {client : Client σ} {peer : σ} {text : String}

/-- An exchange is refused, or it is one line sent and one reply read. -/
theorem map_exchange {α β : Type} (react : Peer σ) (client : Client σ)
    (refused? : Option ClientError) (line : String) (read : String → Except ClientError α)
    (f : α → β) :
    ((client.exchange react (outcomeOf refused?) line read).1.map f,
        (client.exchange react (outcomeOf refused?) line read).2) =
      match refused? with
      | some error => (.error error, client)
      | none =>
        ((client.send react line).1.bind fun reply => (read reply).map f,
          (client.send react line).2) := by
  cases refused? with
  | some error => rfl
  | none =>
    simp only [exchange, outcomeOf]
    cases (client.send react line).1 <;> rfl

theorem call_ofCommand (react : Peer σ) (client : Client σ) (command : Command String) :
    client.call react (Call.ofCommand command) =
      match refusal? command with
      | some error => (.error error, client)
      | none =>
        ((client.send react (lineOf command)).1.bind fun reply => readReply reply command,
          (client.send react (lineOf command)).2) := by
  cases command with
  | put key value =>
    simp only [Call.ofCommand, call, put, checkWords_eq]
    exact map_exchange react client _ _ readDone _
  | get key =>
    simp only [Call.ofCommand, call, get, checkWord_eq]
    exact map_exchange react client _ _ readValue _
  | delete key =>
    simp only [Call.ofCommand, call, delete, checkWord_eq]
    exact map_exchange react client _ _ readDone _

theorem withoutLineEnd_newline {text : List Char} (hline : '\n' ∉ text)
    (hend : text.getLast? ≠ some '\r') : withoutLineEnd (text ++ ['\n']) = text := by
  unfold withoutLineEnd
  rw [List.reverse_append, List.reverse_singleton, List.singleton_append,
    List.dropWhile_cons_of_pos (by decide)]
  rcases text.eq_nil_or_concat with rfl | ⟨front, last, rfl⟩
  · rfl
  · rw [List.concat_eq_append] at hline hend ⊢
    rw [List.getLast?_concat] at hend
    have hnewline : last ≠ '\n' := fun h => hline (List.mem_append_right _ (by simp [h]))
    have hreturn : last ≠ '\r' := fun h => hend (congrArg some h)
    rw [List.reverse_concat, List.dropWhile_cons_of_neg (by simp [hnewline, hreturn])]
    simp

theorem firstLine?_line {bytes : Bytes} (h : Bytes.newline ∉ bytes) :
    firstLine? (bytes ++ [Bytes.newline]) = some (bytes ++ [Bytes.newline], []) := by
  have hend := Bytes.lineEnd?_line h []
  have hall : (bytes ++ [Bytes.newline]).take (bytes.length + 1) = bytes ++ [Bytes.newline] :=
    List.take_of_length_le (by simp)
  simp [firstLine?, hend, hall]

/-- A request that is a single line, and a reply that is one: the client
returns the text of the reply, and has read all of it. -/
theorem send_of_reply {line : String} (hrequest : '\n' ∉ line.toList)
    (hunread : client.unread = [])
    (hreact : react.react client.peer (Utf8.ofString line ++ [Bytes.newline]) =
      (Utf8.ofString text ++ [Bytes.newline], peer))
    (hline : '\n' ∉ text.toList) (hend : text.toList.getLast? ≠ some '\r') :
    client.send react line =
      (.ok text, ⟨peer, [], client.sent ++ (Utf8.ofString line ++ [Bytes.newline])⟩) := by
  have hlast : line.toList.getLast? ≠ some '\n' := by
    intro h
    exact hrequest (List.mem_of_getLast? h)
  have hbytes : Bytes.newline ∉ Utf8.ofString text := by
    intro h
    exact hline (Utf8.newline_mem_encode.mp h)
  have hdecode : Utf8.decode (Utf8.ofString text ++ [Bytes.newline]) =
      .ok (text.toList ++ ['\n']) := by
    have h := Utf8.decode_encode (text.toList ++ ['\n'])
    rwa [Utf8.encode_append] at h
  have hwhole : requestLine line = line.toList := if_neg hlast
  have hbytes' : Utf8.encode line.toList = Utf8.ofString line := rfl
  unfold send
  simp only [hwhole, if_neg hrequest, hunread, List.nil_append, hbytes', hreact,
    firstLine?_line hbytes, hdecode, withoutLineEnd_newline hline hend, String.ofList_toList]

/-- The text of a reply line, if the line holds nothing else: no newline, and
no carriage return that a client would take off its end. -/
structure Says (reply : Reply) (text : String) : Prop where
  body : reply.body = Utf8.ofString text
  oneLine : '\n' ∉ text.toList
  noReturn : text.toList.getLast? ≠ some '\r'

/-- A command that can be sent, and a peer that answers with a reply: the call
returns what the reply means, and nothing is left to be read. -/
theorem call_of_reply {command : Command String} (h : command.Sendable) {reply : Reply}
    (hsaid : Says reply text) (hunread : client.unread = [])
    (hreact : react.react client.peer (command.requestBytes ++ [Bytes.newline]) =
      (reply.wire, peer)) :
    client.call react (Call.ofCommand command) =
      (readReply text command,
        ⟨peer, [], client.sent ++ (command.requestBytes ++ [Bytes.newline])⟩) := by
  have hline : Utf8.ofString (lineOf command) = command.requestBytes :=
    congrArg Utf8.encode (toList_lineOf command)
  have hrequest : '\n' ∉ (lineOf command).toList := by
    rw [toList_lineOf]
    exact Command.newline_notMem_requestText h
  have hsend : client.send react (lineOf command) = _ :=
    send_of_reply hrequest hunread (by rw [hline, hreact, Reply.wire, hsaid.body])
      hsaid.oneLine hsaid.noReturn
  rw [call_ofCommand, refusal?_eq_none_iff.mpr h]
  dsimp only
  rw [hsend, hline]
  rfl

/-- A word is a value that a client takes for a value, and for nothing
else. -/
theorem readValue_word {value : String} (h : Text.IsWord value.toList) :
    readValue value = .ok (some value) := by
  have hblank : ∀ text : String, ' ' ∈ text.toList → value ≠ text := by
    rintro text hspace rfl
    exact Bool.noConfusion (h.2 ' ' hspace)
  have hspace : ' ' ∉ value.toList := fun hmem => Bool.noConfusion (h.2 ' ' hmem)
  unfold readValue
  rw [if_neg (hblank _ (by decide)), if_neg (hblank _ (by decide)), if_neg]
  simp [h.1, hspace]

theorem readReply_put_ok (key value : String) :
    readReply Reply.okText (.put key value) = .ok .done := by
  simp [readReply, readDone, Except.map]

theorem readReply_put_reserved (key value : String) :
    readReply "RESERVED KEYWORD __TOMBSTONE__" (.put key value) =
      .error (.reservedKeyword "__TOMBSTONE__") := by
  have herror : readDone "RESERVED KEYWORD __TOMBSTONE__" =
      .error (.reservedKeyword "__TOMBSTONE__") := by decide
  simp [readReply, herror, Except.map]

theorem readReply_get_value (key : String) {value : String} (h : Text.IsWord value.toList) :
    readReply value (.get key) = .ok (.value (some value)) := by
  simp [readReply, readValue_word h, Except.map]

theorem readReply_get_notFound (key : String) :
    readReply Reply.notFoundText (.get key) = .ok (.value none) := by
  simp [readReply, readValue, Except.map]

theorem readReply_delete_ok (key : String) :
    readReply Reply.okText (.delete key) = .ok .done := by
  simp [readReply, readDone, Except.map]

theorem readReply_delete_notFound (key : String) :
    readReply Reply.notFoundText (.delete key) = .error .notFound := by
  have herror : readDone Reply.notFoundText = .error .notFound := by decide
  simp [readReply, herror, Except.map]

end Client

end LineStore
