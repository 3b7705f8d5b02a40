import LineStore.Proofs.Calls

/-!
# What a client sends

A client refuses the arguments of a call, or it sends one line and takes one
reply.  This module says which, and what the line is, for any peer and whatever
the peer sends.

* `Client.tell` and `Client.hear` are the two halves of an exchange.  `send_eq`
  puts `Client.send` together from them.
* `Call.refusal?` is the check of the arguments and `Call.wire` the line that a
  call sends.  `call_eq` is one call, whichever of the four it is.
* `isRefusal_call_iff` says that a call is refused by this check and by nothing
  else: no reply is ever taken for a refusal.
* The main result compares the line with what the server reads it as.
-/

namespace LineStore

namespace Command

/-- The commands that cannot be sent: an argument is empty, or there is a blank
in it. -/
theorem not_sendable_iff {command : Command String} :
    ¬ command.Sendable ↔
      ∃ text ∈ command.arguments, text.toList = [] ∨ ∃ c ∈ text.toList, Text.isBlank c = true := by
  unfold Sendable chars
  rw [arguments_map, List.forall_mem_map]
  simp only [Text.IsWord, not_forall, not_and_or, not_not, Bool.not_eq_false, exists_prop]

end Command

namespace Client

variable {σ : Type} {react : Peer σ} {client : Client σ}

/-! ## The two halves of an exchange -/

/-- What a client reads off one line of bytes, with or without its newline. -/
def replyOf (line : Bytes) : Except ClientError String :=
  match Utf8.decode line with
  | .ok text => .ok (String.ofList (withoutLineEnd text))
  | .error _ => .error (.io .notText)

/-- The first reply in some bytes, and what is left of them. -/
def takeReply (unread : Bytes) : Except ClientError String × Bytes :=
  match firstLine? unread with
  | none => (.error .connectionClosed, unread)
  | some (line, rest) => (replyOf line, rest)

/-- A client that has sent some bytes, with all that came back for them. -/
def tell (react : Peer σ) (client : Client σ) (bytes : Bytes) : Client σ :=
  ⟨(react.react client.peer bytes).2, client.unread ++ (react.react client.peer bytes).1,
    client.sent ++ bytes⟩

/-- A reply taken from what a client has received, and the client after it. -/
def hear (client : Client σ) : Except ClientError String × Client σ :=
  ((takeReply client.unread).1, { client with unread := (takeReply client.unread).2 })

/-- The bytes that a client sends for a line. -/
def wireOf (line : String) : Bytes :=
  Utf8.encode (requestLine line) ++ [Bytes.newline]

def manyLines : ClientError :=
  .invalidArgument "request must be a single line"

theorem send_eq (react : Peer σ) (client : Client σ) (line : String) :
    client.send react line =
      if '\n' ∈ requestLine line then (.error manyLines, client)
      else (client.tell react (wireOf line)).hear := by
  obtain ⟨react⟩ := react
  unfold send hear tell takeReply wireOf
  dsimp only
  split
  · rfl
  · cases firstLine? (client.unread ++
        (react client.peer (Utf8.encode (requestLine line) ++ [Bytes.newline])).1) with
    | none => rfl
    | some found =>
      obtain ⟨first, rest⟩ := found
      unfold replyOf
      dsimp only
      cases Utf8.decode first <;> rfl

/-! ## The line of a request -/

/-- A line loses the newline at its end, if it has one, and nothing else. -/
theorem requestLine_cases (line : String) :
    line.toList = requestLine line ++ ['\n'] ∨
      line.toList = requestLine line ∧ (requestLine line).getLast? ≠ some '\n' := by
  unfold requestLine
  dsimp only
  split
  · rename_i hlast
    obtain ⟨front, hfront⟩ := List.getLast?_eq_some_iff.mp hlast
    left
    rw [hfront, List.dropLast_concat]
  · rename_i hlast
    exact .inr ⟨rfl, hlast⟩

theorem requestLine_of_notMem {line : String} (h : '\n' ∉ line.toList) :
    requestLine line = line.toList :=
  if_neg fun hlast => h (List.mem_of_getLast? hlast)

theorem wireOf_lineOf {command : Command String} (h : command.Sendable) :
    wireOf (lineOf command) = command.requestBytes ++ [Bytes.newline] := by
  have hline := Command.newline_notMem_requestText h
  rw [← toList_lineOf] at hline
  rw [wireOf, requestLine_of_notMem hline, toList_lineOf]
  rfl

/-! ## One call -/

namespace Call

/-- The line that a call asks for. -/
def line : Call → String
  | put key value => lineOf (.put key value)
  | get key => lineOf (.get key)
  | delete key => lineOf (.delete key)
  | send line => line

/-- What is wrong with the arguments of a call. -/
def refusal? : Call → Option ClientError
  | put key value => Client.refusal? (.put key value)
  | get key => Client.refusal? (.get key)
  | delete key => Client.refusal? (.delete key)
  | send line => if '\n' ∈ requestLine line then some manyLines else none

/-- What a reply means to the call that it is the reply to. -/
def read (reply : String) : Call → Except ClientError Returned
  | put key value => readReply reply (.put key value)
  | get key => readReply reply (.get key)
  | delete key => readReply reply (.delete key)
  | send _ => .ok (.reply reply)

/-- The bytes that a call sends. -/
def wire (call : Call) : Bytes :=
  wireOf call.line

/-- A call is that of a command, or a line sent as it is. -/
theorem eq_ofCommand_or_eq_send (call : Call) :
    (∃ command, call = ofCommand command) ∨ ∃ line, call = send line := by
  cases call with
  | put key value => exact .inl ⟨.put key value, rfl⟩
  | get key => exact .inl ⟨.get key, rfl⟩
  | delete key => exact .inl ⟨.delete key, rfl⟩
  | send line => exact .inr ⟨line, rfl⟩

@[simp] theorem line_ofCommand (command : Command String) :
    (ofCommand command).line = lineOf command := by
  cases command <;> rfl

@[simp] theorem refusal?_ofCommand (command : Command String) :
    (ofCommand command).refusal? = Client.refusal? command := by
  cases command <;> rfl

@[simp] theorem read_ofCommand (reply : String) (command : Command String) :
    read reply (ofCommand command) = readReply reply command := by
  cases command <;> rfl

theorem refusal?_send (line : String) :
    (send line).refusal? = if '\n' ∈ requestLine line then some manyLines else none := rfl

theorem newline_notMem_requestLine {call : Call} (h : call.refusal? = none) :
    '\n' ∉ requestLine call.line := by
  rcases call.eq_ofCommand_or_eq_send with ⟨command, rfl⟩ | ⟨line, rfl⟩
  · rw [refusal?_ofCommand, refusal?_eq_none_iff] at h
    have hline := Command.newline_notMem_requestText h
    rw [← toList_lineOf] at hline
    rwa [line_ofCommand, requestLine_of_notMem hline]
  · rw [refusal?_send] at h
    split at h
    · simp at h
    · rename_i hnewline
      exact hnewline

end Call

/-- A call is refused because of its arguments, or it is one line sent and one
reply taken. -/
theorem call_eq (react : Peer σ) (client : Client σ) (call : Call) :
    client.call react call =
      match call.refusal? with
      | some error => (.error error, client)
      | none =>
        ((client.tell react call.wire).hear.1.bind fun reply => call.read reply,
          (client.tell react call.wire).hear.2) := by
  rcases call.eq_ofCommand_or_eq_send with ⟨command, rfl⟩ | ⟨line, rfl⟩
  · rw [call_ofCommand, Call.refusal?_ofCommand]
    cases hrefused : Client.refusal? command with
    | some error => rfl
    | none =>
      have hfit : (Call.ofCommand command).refusal? = none := by
        rw [Call.refusal?_ofCommand, hrefused]
      have hline := Call.newline_notMem_requestLine hfit
      rw [Call.line_ofCommand] at hline
      simp only [send_eq, if_neg hline, Call.wire, Call.line_ofCommand, Call.read_ofCommand]
  · simp only [Client.call, send_eq, Call.refusal?]
    split
    · rfl
    · simp only [Call.wire, Call.line, Call.read]
      cases (client.tell react (wireOf line)).hear.1 <;> rfl

/-! ## Refusals -/

/-- Tells that a call was refused because of its arguments. -/
def IsRefusal {α : Type} (result : Except ClientError α) : Prop :=
  ∃ reason, result = .error (.invalidArgument reason)

theorem Call.isRefusal_of_refusal? {call : Call} {error : ClientError}
    (h : call.refusal? = some error) :
    IsRefusal (.error error : Except ClientError Returned) := by
  rcases call.eq_ofCommand_or_eq_send with ⟨command, rfl⟩ | ⟨line, rfl⟩
  · rw [refusal?_ofCommand] at h
    obtain ⟨reason, rfl⟩ := refusal?_eq_some h
    exact ⟨reason, rfl⟩
  · rw [refusal?_send] at h
    split at h
    · obtain rfl := Option.some.inj h
      exact ⟨_, rfl⟩
    · simp at h

theorem isRefusal_map {α β : Type} {result : Except ClientError α} {f : α → β}
    (h : IsRefusal (result.map f)) : IsRefusal result := by
  obtain ⟨reason, h⟩ := h
  cases result with
  | error error => exact ⟨reason, congrArg Except.error (Except.error.inj h)⟩
  | ok value => simp [Except.map] at h

theorem not_isRefusal_replyOf (line : Bytes) : ¬ IsRefusal (replyOf line) := by
  rintro ⟨reason, h⟩
  unfold replyOf at h
  split at h <;> simp at h

/-- A reply that is taken is no refusal, and neither is the end of the
stream. -/
theorem not_isRefusal_takeReply (unread : Bytes) : ¬ IsRefusal (takeReply unread).1 := by
  unfold takeReply
  split
  · rintro ⟨reason, h⟩
    simp at h
  · exact not_isRefusal_replyOf _

theorem not_isRefusal_readDone (reply : String) : ¬ IsRefusal (readDone reply) := by
  rintro ⟨reason, h⟩
  unfold readDone errorOf at h
  dsimp only at h
  split_ifs at h <;> simp at h

theorem not_isRefusal_readValue (reply : String) : ¬ IsRefusal (readValue reply) := by
  rintro ⟨reason, h⟩
  unfold readValue at h
  split_ifs at h <;> simp at h

/-- No reply means that the call was refused. -/
theorem Call.not_isRefusal_read (call : Call) (reply : String) : ¬ IsRefusal (call.read reply) := by
  intro h
  cases call with
  | put key value => exact not_isRefusal_readDone reply (isRefusal_map h)
  | get key => exact not_isRefusal_readValue reply (isRefusal_map h)
  | delete key => exact not_isRefusal_readDone reply (isRefusal_map h)
  | send line =>
    obtain ⟨reason, h⟩ := h
    simp [read] at h

theorem Call.not_isRefusal_bind_read {reply : Except ClientError String} (h : ¬ IsRefusal reply)
    (call : Call) : ¬ IsRefusal (reply.bind fun text => call.read text) := by
  cases reply with
  | error error =>
    rintro ⟨reason, hbind⟩
    exact h ⟨reason, congrArg Except.error (Except.error.inj hbind)⟩
  | ok text => exact call.not_isRefusal_read text

/-- A call is refused because of its arguments, and for no other reason. -/
theorem isRefusal_call_iff {call : Call} :
    IsRefusal (client.call react call).1 ↔ call.refusal? ≠ none := by
  rw [call_eq]
  cases hrefused : call.refusal? with
  | some error =>
    exact iff_of_true (Call.isRefusal_of_refusal? hrefused) (Option.some_ne_none error)
  | none =>
    have hheard : ¬ IsRefusal (client.tell react call.wire).hear.1 := not_isRefusal_takeReply _
    exact iff_of_false (call.not_isRefusal_bind_read hheard) (not_not.mpr rfl)

/-- A refused call leaves the client as it was. -/
theorem call_of_refused {call : Call} (h : call.refusal? ≠ none) :
    (client.call react call).2 = client := by
  rw [call_eq]
  cases hrefused : call.refusal? with
  | some error => rfl
  | none => exact absurd hrefused h

/-- A call that is not refused sends its line, and the peer takes nothing
else. -/
theorem sent_call {call : Call} (h : call.refusal? = none) :
    (client.call react call).2.sent = client.sent ++ call.wire ∧
      (client.call react call).2.peer = (react.react client.peer call.wire).2 := by
  rw [call_eq, h]
  exact ⟨rfl, rfl⟩

/-! ## The main result -/

/-- A client asks its server for what it was told to ask for, and for nothing
else.

* The call of a command is refused exactly when an argument is empty or has a
  blank in it.  Nothing is sent then, and no reply is taken.
* Otherwise one line is sent, and it has no newline but the one at its end.  The
  server reads it as the command, with the arguments as they were given.
* A line that is sent as it is may have a newline at its end.  It is refused
  exactly when it has another one, and sent with a newline otherwise. -/
theorem sends_what_was_asked {σ : Type} (react : Peer σ) (client : Client σ) :
    (∀ command : Command String,
      let (result, next) := client.call react (.ofCommand command)
      (IsRefusal result ↔ ∃ text ∈ command.arguments,
        text.toList = [] ∨ ∃ c ∈ text.toList, Text.isBlank c = true) ∧
      (IsRefusal result → next = client) ∧
      (¬ IsRefusal result → ∃ line : Bytes,
        Bytes.newline ∉ line ∧
          next.sent = client.sent ++ (line ++ [Bytes.newline]) ∧
          next.peer = (react.react client.peer (line ++ [Bytes.newline])).2 ∧
          (Command.ofLine line).map (Command.map Text.Word.bytes) =
            .ok (command.map Utf8.ofString))) ∧
      ∀ line : String, ∃ text : List Char,
        (line.toList = text ++ ['\n'] ∨ line.toList = text ∧ text.getLast? ≠ some '\n') ∧
          let (result, next) := client.send react line
          (IsRefusal result ↔ '\n' ∈ text) ∧ (IsRefusal result → next = client) ∧
            (¬ IsRefusal result →
              next.sent = client.sent ++ (Utf8.encode text ++ [Bytes.newline]) ∧
                next.peer =
                  (react.react client.peer (Utf8.encode text ++ [Bytes.newline])).2) := by
  refine ⟨?_, ?_⟩
  · intro command
    have hrefused : IsRefusal (client.call react (.ofCommand command)).1 ↔
        ¬ command.Sendable := by
      rw [isRefusal_call_iff, Call.refusal?_ofCommand, ne_eq, refusal?_eq_none_iff]
    refine ⟨hrefused.trans Command.not_sendable_iff, ?_, ?_⟩
    · intro h
      exact call_of_refused (isRefusal_call_iff.mp h)
    · intro h
      have hsendable : command.Sendable := not_not.mp (mt hrefused.mpr h)
      have hwire : (Call.ofCommand command).wire = command.requestBytes ++ [Bytes.newline] := by
        rw [Call.wire, Call.line_ofCommand, wireOf_lineOf hsendable]
      obtain ⟨hsent, hpeer⟩ := sent_call (not_not.mp (mt isRefusal_call_iff.mpr h))
      rw [hwire] at hsent hpeer
      refine ⟨command.requestBytes, Command.newline_notMem_requestBytes hsendable, hsent, hpeer, ?_⟩
      rw [Command.requestBytes, Command.ofLine_requestText hsendable]
      cases command <;> rfl
  · intro line
    refine ⟨requestLine line, requestLine_cases line, ?_⟩
    rw [send_eq]
    by_cases hnewline : '\n' ∈ requestLine line
    · rw [if_pos hnewline]
      have hrefused : IsRefusal (.error manyLines : Except ClientError String) := ⟨_, rfl⟩
      exact ⟨iff_of_true hrefused hnewline, fun _ => rfl, fun h => absurd hrefused h⟩
    · rw [if_neg hnewline]
      have hheard : ¬ IsRefusal (client.tell react (wireOf line)).hear.1 :=
        not_isRefusal_takeReply _
      exact ⟨iff_of_false hheard hnewline, fun h => absurd h hheard, fun _ => ⟨rfl, rfl⟩⟩

/-- A value with a wide blank in it is refused, and a key is sent; so is a line
that has a newline at its end. -/
theorem sends_what_was_asked_wide_blank :
    let client := start () []
    let put := client.call Peer.silent (.ofCommand (.put "k" "a\u3000b"))
    let get := client.call Peer.silent (.ofCommand (.get "name"))
    let send := client.send Peer.silent "PING\n"
    (IsRefusal put.1 ∧ put.2 = client) ∧
      (¬ IsRefusal get.1 ∧ ∃ line : Bytes,
        Bytes.newline ∉ line ∧ get.2.sent = line ++ [Bytes.newline] ∧
          (Command.ofLine line).map (Command.map Text.Word.bytes) =
            .ok (.get (Utf8.ofString "name"))) ∧
      ¬ IsRefusal send.1 ∧ send.2.sent = Utf8.ofString "PING\n" := by
  intro client put get send
  obtain ⟨hcalls, hlines⟩ := sends_what_was_asked Peer.silent client
  obtain ⟨hput, hsame, -⟩ := hcalls (.put "k" "a\u3000b")
  obtain ⟨hget, -, hsent⟩ := hcalls (.get "name")
  have hblank : ¬ (Command.put "k" "a\u3000b").Sendable := by decide
  have hsendable : (Command.get "name").Sendable := by decide
  have hrefused : IsRefusal put.1 := hput.mpr (Command.not_sendable_iff.mp hblank)
  have hfit : ¬ IsRefusal get.1 := fun h => Command.not_sendable_iff.mpr (hget.mp h) hsendable
  obtain ⟨line, hnewline, hbytes, -, hread⟩ := hsent hfit
  obtain ⟨text, htext, hrefusal, -, hline⟩ := hlines "PING\n"
  have htext : text = ['P', 'I', 'N', 'G'] := by
    rcases htext with htext | ⟨htext, hlast⟩
    · have hends : ['P', 'I', 'N', 'G'] ++ ['\n'] = text ++ ['\n'] := htext
      exact (List.append_cancel_right hends).symm
    · rw [← htext] at hlast
      exact absurd rfl hlast
  rw [htext] at hrefusal hline
  have htaken : ¬ IsRefusal send.1 := mt hrefusal.mp (by decide)
  exact ⟨⟨hrefused, hsame hrefused⟩, ⟨hfit, line, hnewline, hbytes, hread⟩, htaken,
    (hline htaken).1⟩

end Client

end LineStore
