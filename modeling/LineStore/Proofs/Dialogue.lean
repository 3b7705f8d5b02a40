import LineStore.Proofs.Exchange
import LineStore.Proofs.InputLines
import LineStore.Proofs.ReplyLines
import LineStore.Proofs.Service

/-!
# A dialogue is the execution of its lines

Somebody types lines at the prompt of the client program.  This module compares
the dialogue with the execution of the lines on the store of the server.

* `Reply.Proper.says_text`: what a client shows for a reply is the text of it.
* `Console.Attends` is the invariant: the server waits for this client and for
  all others, and the client has nothing left to read.  `Attends.send` is one
  request.
* `Console.heard` are the lines up to the one that ends the dialogue, and
  `Console.requests` those among them that are sent.
* `Attends.session` carries the invariant through the lines.  The main result is
  about the program.
-/

namespace LineStore

/-! ## What a reply says -/

theorem Utf8.decodeLossy_ofString (text : String) : decodeLossy (ofString text) = text := by
  unfold decodeLossy ofString
  rw [segments_encode, List.map_map]
  exact (congrArg String.ofList (List.map_id _)).trans String.ofList_toList

namespace Reply

variable {reply : Reply}

theorem says_text {text : String} (h : Client.Says reply text) : reply.text = text := by
  unfold Reply.text
  rw [h.body, Utf8.decodeLossy_ofString]

theorem Proper.exists_says (h : reply.Proper) : ∃ text, Client.Says reply text := by
  cases h with
  | ok => exact ⟨_, Dictionary.says_ok⟩
  | notFound => exact ⟨_, Dictionary.says_notFound⟩
  | reservedKeyword => exact ⟨_, Dictionary.says_reserved⟩
  | invalidInput => exact ⟨invalidInputText, rfl, by decide, by decide⟩
  | value hvalue =>
    rcases hvalue with ⟨chars, rfl, hword⟩
    rw [← @String.toList_ofList chars] at hword ⊢
    exact ⟨String.ofList chars, Dictionary.says_value hword⟩

/-- A reply of a store that holds words is shown to a client as it is. -/
theorem Proper.says_text (h : reply.Proper) : Client.Says reply reply.text := by
  rcases h.exists_says with ⟨text, hsaid⟩
  rwa [Reply.says_text hsaid]

end Reply

namespace Console

open Hub

variable {client : Client Hub} {id maxLine : Nat} {line : List Char} {lines : List (List Char)}

/-! ## One request -/

/-- A client whose server waits for it, and which has nothing left to read. -/
structure Attends (client : Client Hub) (id maxLine : Nat) : Prop where
  quiet : client.peer.Quiet maxLine
  live : id ∈ ids client.peer.live
  words : client.peer.shared.store.HoldsWords
  unread : client.unread = []

/-- A request is executed, and its reply is returned. -/
theorem Attends.send (h : Attends client id maxLine) {request : List Char} (hn : '\n' ∉ request)
    (hl : (Utf8.encode request).length ≤ maxLine) :
    let execution := Command.executeLine client.peer.shared.store (Utf8.encode request)
    ∃ next : Client Hub,
      client.send (Hub.peer id) (String.ofList request) = (.ok execution.reply.text, next) ∧
        Attends next id maxLine ∧ next.peer.shared.store = execution.store ∧
        next.sent = client.sent ++ (Utf8.encode request ++ [Bytes.newline]) := by
  intro execution
  have hproper : execution.reply.Proper := Command.proper_executeLine h.words _
  have hsaid := hproper.says_text
  have hbytes : Bytes.newline ∉ Utf8.encode request := mt Utf8.newline_mem_encode.mp hn
  rcases h.quiet.step_send h.live hbytes hl with ⟨after, hstep, hsignal, hstore, houtput⟩
  have hstring : Utf8.ofString (String.ofList request) = Utf8.encode request :=
    congrArg Utf8.encode String.toList_ofList
  have hreact : (Hub.peer id).react client.peer
      (Utf8.ofString (String.ofList request) ++ [Bytes.newline]) =
        (Utf8.ofString execution.reply.text ++ [Bytes.newline],
          (⟨after, client.peer.live⟩ : Hub)) := by
    rw [hstring, ← hsaid.body]
    exact Prod.ext houtput hstep
  have hsend := Client.send_of_reply (String.toList_ofList ▸ hn) h.unread hreact hsaid.oneLine
    hsaid.noReturn
  refine ⟨_, hsend, ⟨⟨h.quiet.ordered, h.quiet.idle, ?_⟩, h.live, ?_, rfl⟩, hstore, ?_⟩
  · exact hsignal ▸ h.quiet.unsignalled
  · show after.store.HoldsWords
    rw [hstore]
    exact Command.holdsWords_executeLine h.words _
  · rw [← hstring]

/-! ## The lines of a dialogue -/

/-- The lines in front of the one that ends the dialogue. -/
def heard (lines : List (List Char)) : List (List Char) :=
  lines.takeWhile fun line => ¬ Dismisses line

/-- The lines that are sent: there is something in them. -/
def requests (lines : List (List Char)) : List (List Char) :=
  (heard lines).filter fun line => ¬ Text.AllBlank line

/-- What is printed for lines that are heard: a prompt for each, and behind it the
next reply if there is something in the line. -/
def shown (prompt : String) : List (List Char) → List Reply → String
  | [], _ => ""
  | _ :: rest, [] => prompt ++ shown prompt rest []
  | line :: rest, reply :: replies =>
    if Text.AllBlank line then prompt ++ shown prompt rest (reply :: replies)
    else prompt ++ reply.text ++ "\n" ++ shown prompt rest replies

theorem not_dismisses_of_blank (h : Text.AllBlank line) : ¬ Dismisses line := by
  unfold Dismisses
  rw [Text.trim_eq_nil_iff.mpr h]
  decide

theorem entry_of (line : List Char) :
    Entry.of line =
      if Dismisses line then .farewell
      else if Text.AllBlank line then .nothing else .request (Text.trim line) := by
  unfold Entry.of
  dsimp only
  have hempty : (Text.trim line).isEmpty = true ↔ Text.AllBlank line :=
    List.isEmpty_iff.trans Text.trim_eq_nil_iff
  by_cases hblank : Text.AllBlank line
  · rw [if_neg (not_dismisses_of_blank hblank), if_pos hblank, if_pos (hempty.mpr hblank)]
  · rw [if_neg (mt hempty.mp hblank), if_neg hblank]
    by_cases hend : Dismisses line
    · rw [if_pos (isFarewell_trim_iff.mpr hend), if_pos hend]
    · rw [if_neg (mt isFarewell_trim_iff.mp hend), if_neg hend]

theorem heard_of_dismisses (h : Dismisses line) (rest : List (List Char)) :
    heard (line :: rest) = [] :=
  List.takeWhile_cons_of_neg (by simpa using h)

theorem heard_of_not_dismisses (h : ¬ Dismisses line) (rest : List (List Char)) :
    heard (line :: rest) = line :: heard rest :=
  List.takeWhile_cons_of_pos (by simpa using h)

/-- What is on the screen in the end.  There is one more prompt than there are lines
that were heard, and a newline if the input has ended. -/
def transcript (prompt : String) (lines : List (List Char)) (replies : List Reply) : String :=
  shown prompt (heard lines) replies ++ prompt ++ if heard lines = lines then "\n" else ""

theorem transcript_blank (h : Text.AllBlank line) (prompt : String) (rest : List (List Char))
    (replies : List Reply) :
    transcript prompt (line :: rest) replies = prompt ++ transcript prompt rest replies := by
  unfold transcript
  rw [heard_of_not_dismisses (not_dismisses_of_blank h)]
  cases replies <;> simp [shown, h, String.append_assoc]

theorem transcript_request (hgoes : ¬ Dismisses line) (h : ¬ Text.AllBlank line) (prompt : String)
    (rest : List (List Char)) (reply : Reply) (replies : List Reply) :
    transcript prompt (line :: rest) (reply :: replies) =
      prompt ++ reply.text ++ "\n" ++ transcript prompt rest replies := by
  unfold transcript
  rw [heard_of_not_dismisses hgoes]
  simp [shown, h, String.append_assoc]

/-! ## All lines of a dialogue -/

/-- A dialogue that heard some lines, and replied to those that were sent what the
store of the server replies to them. -/
structure Follows (client : Client Hub) (prompt printed : String) (lines : List (List Char))
    (dialogue : Dialogue Hub) : Prop where
  noError : dialogue.error? = none
  printed : dialogue.printed = printed ++ transcript prompt lines
    (Command.executeLines client.peer.shared.store ((requests lines).map Utf8.encode)).1
  sent : dialogue.client.sent = client.sent ++
    (requests lines).flatMap fun line => Utf8.encode (Text.trim line) ++ [Bytes.newline]
  store : dialogue.client.peer.shared.store =
    (Command.executeLines client.peer.shared.store ((requests lines).map Utf8.encode)).2

variable {prompt printed : String} {dialogue : Dialogue Hub}

theorem Follows.done (client : Client Hub) (prompt printed : String) :
    Follows client prompt printed [] ⟨printed ++ prompt ++ "\n", none, client⟩ where
  noError := rfl
  printed := by simp [transcript, heard, shown, String.append_assoc]
  sent := (List.append_nil _).symm
  store := rfl

theorem Follows.dismissed (h : Dismisses line) (client : Client Hub) (prompt printed : String) :
    Follows client prompt printed (line :: lines) ⟨printed ++ prompt, none, client⟩ := by
  have hheard := heard_of_dismisses h lines
  have hrequests : requests (line :: lines) = [] := congrArg (List.filter _) hheard
  constructor
  · rfl
  · rw [transcript, hheard, if_neg (List.cons_ne_nil line lines).symm]
    simp [shown]
  · rw [hrequests]
    exact (List.append_nil _).symm
  · rw [hrequests]
    rfl

/-- A blank line is passed over. -/
theorem Follows.blank (h : Text.AllBlank line)
    (hrest : Follows client prompt (printed ++ prompt) lines dialogue) :
    Follows client prompt printed (line :: lines) dialogue := by
  have hrequests : requests (line :: lines) = requests lines := by
    unfold requests
    rw [heard_of_not_dismisses (not_dismisses_of_blank h),
      List.filter_cons_of_neg (by simpa using h)]
  rcases hrest with ⟨herror, hprinted, hsent, hstore⟩
  constructor
  · exact herror
  · rw [hprinted, hrequests, transcript_blank h, String.append_assoc]
  · rwa [hrequests]
  · rwa [hrequests]

/-- A line with something in it is sent, and the reply is shown. -/
theorem Follows.request (hgoes : ¬ Dismisses line) (h : ¬ Text.AllBlank line) {next : Client Hub}
    {execution : Execution}
    (hexecution : execution = Command.executeLine client.peer.shared.store (Utf8.encode line))
    (hsent : next.sent = client.sent ++ (Utf8.encode (Text.trim line) ++ [Bytes.newline]))
    (hstore : next.peer.shared.store = execution.store)
    (hrest : Follows next prompt (printed ++ prompt ++ execution.reply.text ++ "\n") lines
      dialogue) :
    Follows client prompt printed (line :: lines) dialogue := by
  have hrequests : requests (line :: lines) = line :: requests lines := by
    unfold requests
    rw [heard_of_not_dismisses hgoes, List.filter_cons_of_pos (by simpa using h)]
  have hexecute : Command.executeLines client.peer.shared.store
      ((requests (line :: lines)).map Utf8.encode) =
        (execution.reply :: (Command.executeLines next.peer.shared.store
          ((requests lines).map Utf8.encode)).1,
          (Command.executeLines next.peer.shared.store ((requests lines).map Utf8.encode)).2) := by
    rw [hrequests, hstore, hexecution]
    rfl
  constructor
  · exact hrest.noError
  · rw [hrest.printed, hexecute, transcript_request hgoes h]
    simp only [String.append_assoc]
  · rw [hrest.sent, hsent, hrequests, List.flatMap_cons, List.append_assoc]
  · rw [hexecute, hrest.store]

/-- A dialogue over any lines, with a server that waits for it. -/
theorem Attends.session (h : Attends client id maxLine) (prompt printed : String)
    (hlines : ∀ line ∈ lines, '\n' ∉ line ∧ (Utf8.encode (Text.trim line)).length ≤ maxLine) :
    Follows client prompt printed lines
      (session (Hub.peer id) prompt client printed (lines.map Utf8.encode)) := by
  induction lines generalizing client printed with
  | nil => exact .done client prompt printed
  | cons line rest ih =>
    rcases List.forall_mem_cons.mp hlines with ⟨⟨hnewline, hfit⟩, hrest⟩
    rw [List.map_cons, Console.session, Utf8.decode_encode]
    dsimp only
    rw [entry_of]
    by_cases hend : Dismisses line
    · rw [if_pos hend]
      exact .dismissed hend client prompt printed
    rw [if_neg hend]
    by_cases hblank : Text.AllBlank line
    · rw [if_pos hblank]
      exact (ih h (printed ++ prompt) hrest).blank hblank
    · rw [if_neg hblank]
      rcases h.send (mt Text.mem_of_mem_trim hnewline) hfit with ⟨next, hsend, hnext, hstore, hsent⟩
      have htrim := Command.executeLine_trim client.peer.shared.store line
      dsimp only
      rw [hsend]
      exact (ih hnext _ hrest).request hend hblank htrim hsent hstore

/-! ## The main result -/

/-- The client program without a request on its command line, in front of a server
whose store has executed any lines.  The input may be any text.

* The lines that are heard stand in front of the first one that ends the dialogue.
  Those of them with something in them are sent, trimmed, and nothing else is.
* The replies, one for each of these lines, and the store after them are those of
  the execution of the lines as they were typed.
* On the screen there is a prompt for each line that is heard.  The reply stands
  behind it, if the line was sent.  After these comes one more prompt, with a newline
  behind it if the input has ended. -/
theorem run_executes_lines (network : Network) {hub : Hub} {id maxLine : Nat}
    (hquiet : hub.Quiet maxLine) (hid : id ∈ ids hub.live)
    {place : Bytes → Fin Store.shardCount} {earlier : List Bytes}
    (hstore : hub.shared.store = (Command.executeLines (Store.empty place) earlier).2)
    {arguments : List String} {parsed : CommandLine.Parsed}
    (hparse : program.parse arguments = .ok parsed) (hoperands : parsed.operands = [])
    {host : String} (hhost : host = (parsed.text? "host").getD Settings.defaultHost)
    {port : Nat} (hport : port = (parsed.number? "port").getD Settings.defaultPort)
    (hcall : network.callFault? host port = none) {text : List Char}
    (hfit : ∀ line ∈ Text.lines text, (Utf8.encode (Text.trim line)).length ≤ maxLine) :
    let lines := Text.lines text
    let before := lines.takeWhile fun line => ¬ Dismisses line
    let sent := before.filter fun line => ¬ Text.AllBlank line
    let execution := Command.executeLines hub.shared.store (sent.map Utf8.encode)
    let outcome := run network (Hub.peer id) (.start hub []) arguments (Utf8.encode text)
    (∀ line ∈ lines, Text.Trims line (Text.trim line)) ∧
      outcome.2.sent =
        (sent.flatMap fun line => Utf8.encode (Text.trim line) ++ [Bytes.newline]) ∧
      execution.1.length = sent.length ∧
      outcome.1 = ⟨0, transcript s!"{host}:{port}> " lines execution.1, ""⟩ ∧
      outcome.2.peer.shared.store = execution.2 := by
  have hattends : Attends (.start hub []) id maxLine := by
    refine ⟨hquiet, hid, ?_, rfl⟩
    show hub.shared.store.HoldsWords
    rw [hstore]
    exact Command.holdsWords_executeLines (Store.allBindings_empty place) earlier
  have hlines : ∀ line ∈ Text.lines text,
      '\n' ∉ line ∧ (Utf8.encode (Text.trim line)).length ≤ maxLine := fun line hmem =>
    ⟨Text.newline_notMem_of_mem_lines hmem, hfit line hmem⟩
  have hfollows := hattends.session s!"{host}:{port}> " "" hlines
  have hrun : run network (Hub.peer id) (.start hub []) arguments (Utf8.encode text) =
      ((session (Hub.peer id) s!"{host}:{port}> " (.start hub []) ""
          ((Text.lines text).map Utf8.encode)).result,
        (session (Hub.peer id) s!"{host}:{port}> " (.start hub []) ""
          ((Text.lines text).map Utf8.encode)).client) := by
    unfold run
    rw [hparse]
    dsimp only
    rw [← hhost, ← hport, hcall, hoperands, inputLines_encode]
    rfl
  intro lines before sent execution outcome
  have houtcome : outcome = _ := hrun
  rw [houtcome]
  refine ⟨fun line _ => Text.trims_trim line, hfollows.sent.trans (List.nil_append _), ?_, ?_,
    hfollows.store⟩
  · rw [Command.length_executeLines, List.length_map]
  · rw [Dialogue.result, hfollows.noError, hfollows.printed, String.empty_append]
    rfl

/-- Lines that end in different ways, with blanks around them and between them, and
one that nobody hears. -/
theorem run_executes_lines_until_quit :
    let input := "put k\u3000v\r\n\n \t\r\n  get k \nnonsense\n\u3000QuiT\r\nget k\n"
    let hub := ((Server.Running.empty .default).connect 0 false).hub
    let outcome := run .loopback (Hub.peer 0) (.start hub []) ["-p", "7000"] (Utf8.ofString input)
    outcome.1 =
        ⟨0, "127.0.0.1:7000> OK\n127.0.0.1:7000> 127.0.0.1:7000> 127.0.0.1:7000> v\n" ++
          "127.0.0.1:7000> INVALID INPUT\n127.0.0.1:7000> ", ""⟩ ∧
      outcome.2.sent = Utf8.ofString "put k\u3000v\nget k\nnonsense\n" := by
  intro input hub outcome
  have hserves := Server.Running.serves_empty .default
  have hsink : (Server.setup .default "127.0.0.1:50000").sink = .unlimited := rfl
  rcases hserves.quiet.step_connect 0 hsink rfl with ⟨hquiet, hstore, hids⟩
  have hparse : program.parse ["-p", "7000"] = .ok ⟨[("port", .number 7000)], []⟩ := by
    decide +kernel
  have hfit : ∀ line ∈ Text.lines input.toList,
      (Utf8.encode (Text.trim line)).length ≤ Settings.default.maxLine := by
    decide +kernel
  have hempty : hub.shared.store = (Command.executeLines (Store.empty Store.spread) []).2 := hstore
  rcases run_executes_lines .loopback hquiet ((hids 0).mpr (.inl rfl)) hempty hparse rfl rfl rfl rfl
    hfit with ⟨-, hsent, -, hresult, -⟩
  rw [hstore] at hresult
  exact ⟨hresult.trans (by decide +kernel), hsent.trans (by decide +kernel)⟩

end Console

end LineStore
