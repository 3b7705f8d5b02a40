import LineStore.Proofs.Lines
import LineStore.Proofs.Requests

/-!
# Calls and their replies

A client whose server has sent all that it will send makes one call after
another.  This module says which reply each call is answered from, whatever the
bytes of the server are and whatever the calls return.

* `Bytes.linesToEnd` are the lines of a stream as a reader meets them: the
  complete ones, and then the tail if there is one.
* `takeReply_eq` takes one of these lines, and `linesToEnd_unread_call` says
  that a call takes one, or none if it is refused.
* `getElem?_callAll` is the induction over the calls, and `sent_callAll` says
  what they send.
* The main result is about streams that end with a newline.
-/

namespace LineStore

namespace Bytes

variable {bytes : Bytes}

/-- The lines of a stream up to its end.  What no newline ends is a line too. -/
def linesToEnd (bytes : Bytes) : List Bytes :=
  (cutLines bytes).1 ++ if (cutLines bytes).2 = [] then [] else [(cutLines bytes).2]

theorem linesToEnd_of_lineEnd? {size : Nat} (h : lineEnd? bytes = some size) :
    linesToEnd bytes = bytes.take size :: linesToEnd (bytes.drop (size + 1)) := by
  have hcut := cutLines_of_lineEnd? h []
  rw [List.append_nil, List.append_nil] at hcut
  unfold linesToEnd
  rw [hcut, List.cons_append]

theorem linesToEnd_of_notMem (h : newline ∉ bytes) (hne : bytes ≠ []) :
    linesToEnd bytes = [bytes] := by
  unfold linesToEnd
  rw [cutLines_of_notMem h, if_neg hne, List.nil_append]

/-- A stream has no tail if it is empty, or if it ends with a newline. -/
theorem tail_eq_nil_iff :
    (cutLines bytes).2 = [] ↔ bytes = [] ∨ bytes.getLast? = some newline := by
  have hwhole := endLines_cutLines bytes
  constructor
  · intro htail
    rw [htail, List.append_nil] at hwhole
    rcases (cutLines bytes).1.eq_nil_or_concat with hnil | ⟨front, last, hlines⟩
    · left
      rw [← hwhole, hnil, endLines_nil]
    · right
      rw [← hwhole, hlines, List.concat_eq_append, endLines_append, endLines_cons, endLines_nil,
        ← List.append_assoc, List.getLast?_concat]
  · rintro (rfl | hlast)
    · rfl
    · by_contra hne
      rw [← hwhole, List.getLast?_append_of_ne_nil _ hne] at hlast
      exact newline_notMem_tail bytes (List.mem_of_getLast? hlast)

end Bytes

namespace Client

/-! ## One reply -/

theorem withoutLineEnd_append_newline (text : List Char) :
    withoutLineEnd (text ++ ['\n']) = withoutLineEnd text := by
  unfold withoutLineEnd
  rw [List.reverse_concat, List.dropWhile_cons_of_pos (by decide)]

theorem replyOf_encode (text : List Char) :
    replyOf (Utf8.encode text) = .ok (String.ofList (withoutLineEnd text)) := by
  unfold replyOf
  rw [Utf8.decode_encode]

theorem replyOf_of_not_text {line : Bytes} (h : ∀ text, Utf8.encode text ≠ line) :
    replyOf line = .error (.io .notText) := by
  obtain ⟨fault, hfault⟩ := Utf8.exists_decode_eq_error_iff.mpr h
  unfold replyOf
  rw [hfault]

/-- It makes no difference to a reply whether its newline has come. -/
theorem replyOf_append_newline (line : Bytes) :
    replyOf (line ++ [Bytes.newline]) = replyOf line := by
  by_cases htext : ∃ text, Utf8.encode text = line
  · obtain ⟨text, rfl⟩ := htext
    have hwhole : Utf8.encode text ++ [Bytes.newline] = Utf8.encode (text ++ ['\n']) := by
      rw [Utf8.encode_append]
      rfl
    rw [hwhole, replyOf_encode, replyOf_encode, withoutLineEnd_append_newline]
  · rw [not_exists] at htext
    have hnone : ∀ text, Utf8.encode text ≠ line ++ [Bytes.newline] := by
      intro text hwhole
      obtain ⟨front, -, -, hfront, -⟩ := Utf8.encode_eq_append_newline_iff.mp hwhole
      exact htext front hfront
    rw [replyOf_of_not_text hnone, replyOf_of_not_text htext]

/-- What a client makes of the next line, if there is one. -/
def replyTo : Option Bytes → Except ClientError String
  | none => .error .connectionClosed
  | some line => replyOf line

/-- A reply is the next line, and the others are left. -/
theorem takeReply_eq (unread : Bytes) :
    (takeReply unread).1 = replyTo (Bytes.linesToEnd unread).head? ∧
      Bytes.linesToEnd (takeReply unread).2 = (Bytes.linesToEnd unread).tail := by
  unfold takeReply firstLine?
  by_cases hempty : unread = []
  · subst hempty
    exact ⟨rfl, rfl⟩
  rw [if_neg (by simpa using hempty)]
  cases hend : Bytes.lineEnd? unread with
  | none =>
    rw [Bytes.linesToEnd_of_notMem (Bytes.lineEnd?_eq_none_iff.mp hend) hempty]
    exact ⟨rfl, rfl⟩
  | some size =>
    have hline : unread.take (size + 1) = unread.take size ++ [Bytes.newline] := by
      obtain ⟨hlt, hat, -⟩ := List.idxOf?_eq_some_iff.mp hend
      rw [List.take_succ_eq_append_getElem hlt, hat]
    rw [Bytes.linesToEnd_of_lineEnd? hend]
    dsimp only
    rw [hline, replyOf_append_newline]
    exact ⟨rfl, rfl⟩

/-! ## One call -/

namespace Call

/-- Tells whether a line is sent for a call. -/
def isSent (call : Call) : Bool :=
  call.refusal?.isNone

/-- What a call returns that is answered with a line, or that finds the stream
at its end. -/
def answerTo (call : Call) (line? : Option Bytes) : Except ClientError Returned :=
  (replyTo line?).bind fun reply => call.read reply

theorem not_isRefusal_answerTo (call : Call) (line? : Option Bytes) :
    ¬ IsRefusal (call.answerTo line?) := by
  refine call.not_isRefusal_bind_read ?_
  cases line? with
  | none =>
    rintro ⟨reason, h⟩
    simp [replyTo] at h
  | some line => exact not_isRefusal_replyOf line

/-- A line of text is read as the call makes it expect. -/
theorem answerTo_text (call : Call) (text : List Char) :
    call.answerTo (some (Utf8.encode text)) = call.read (String.ofList (withoutLineEnd text)) := by
  show (replyOf (Utf8.encode text)).bind _ = _
  rw [replyOf_encode]
  rfl

/-- A line that is no text is no answer to any call. -/
theorem answerTo_of_not_text (call : Call) {line : Bytes} (h : ∀ text, Utf8.encode text ≠ line) :
    call.answerTo (some line) = .error (.io .notText) := by
  show (replyOf line).bind _ = _
  rw [replyOf_of_not_text h]
  rfl

end Call

variable {σ : Type}

theorem sent_callAll (react : Peer σ) (client : Client σ) (calls : List Call) :
    (client.callAll react calls).2.sent =
      client.sent ++ (calls.filter Call.isSent).flatMap Call.wire := by
  induction calls generalizing client with
  | nil => exact (List.append_nil _).symm
  | cons call rest ih =>
    show ((client.call react call).2.callAll react rest).2.sent = _
    rw [ih]
    cases hrefused : call.refusal? with
    | some error =>
      have hsame : (client.call react call).2 = client := call_of_refused (by simp [hrefused])
      have hsent : call.isSent = false := by simp [Call.isSent, hrefused]
      rw [hsame, List.filter_cons_of_neg (by simp [hsent])]
    | none =>
      have hsent : call.isSent = true := by simp [Call.isSent, hrefused]
      rw [(sent_call hrefused).1, List.filter_cons_of_pos hsent, List.flatMap_cons,
        List.append_assoc]

variable {client : Client Unit}

/-- A call is refused, or answered from the next line. -/
theorem result_call (client : Client Unit) (call : Call) :
    (client.call Peer.silent call).1 =
      match call.refusal? with
      | some error => .error error
      | none => call.answerTo (Bytes.linesToEnd client.unread).head? := by
  rw [call_eq]
  cases call.refusal? with
  | some error => rfl
  | none =>
    have hreply := (takeReply_eq client.unread).1
    simp only [hear, tell, Peer.silent, List.append_nil, hreply, Call.answerTo]

theorem linesToEnd_unread_call (client : Client Unit) (call : Call) :
    Bytes.linesToEnd (client.call Peer.silent call).2.unread =
      if call.isSent then (Bytes.linesToEnd client.unread).tail
      else Bytes.linesToEnd client.unread := by
  rw [call_eq, Call.isSent]
  cases call.refusal? with
  | some error => rfl
  | none =>
    have hrest := (takeReply_eq client.unread).2
    simp only [hear, tell, Peer.silent, List.append_nil, hrest, Option.isNone_none, if_true]

/-! ## Any number of calls -/

/-- A call that is sent is answered from the line with as many others before it
as there were calls sent before. -/
theorem getElem?_callAll (client : Client Unit) (calls : List Call) (n : Nat) :
    (client.callAll Peer.silent calls).1[n]? = calls[n]?.map fun call =>
      match call.refusal? with
      | some error => .error error
      | none => call.answerTo
          (Bytes.linesToEnd client.unread)[(calls.take n).countP Call.isSent]? := by
  induction calls generalizing client n with
  | nil => rfl
  | cons first rest ih =>
    show ((client.call Peer.silent first).1 ::
      ((client.call Peer.silent first).2.callAll Peer.silent rest).1)[n]? = _
    cases n with
    | zero =>
      rw [List.getElem?_cons_zero, List.getElem?_cons_zero, result_call]
      simp only [List.head?_eq_getElem?, List.take_zero, List.countP_nil, Option.map_some]
    | succ n =>
      rw [List.getElem?_cons_succ, List.getElem?_cons_succ, ih, linesToEnd_unread_call,
        List.take_succ_cons, List.countP_cons]
      cases first.isSent with
      | false => rfl
      | true => simp only [if_true, List.getElem?_tail]

theorem length_callAll (client : Client Unit) (calls : List Call) :
    (client.callAll Peer.silent calls).1.length = calls.length := by
  induction calls generalizing client with
  | nil => rfl
  | cons first rest ih => exact congrArg (· + 1) (ih _)

variable {calls : List Call} {n : Nat} {call : Call} {result : Except ClientError Returned}

theorem isRefusal_result_iff (hcall : calls[n]? = some call)
    (hresult : (client.callAll Peer.silent calls).1[n]? = some result) :
    IsRefusal result ↔ call.isSent = false := by
  rw [getElem?_callAll, hcall, Option.map_some, Option.some.injEq] at hresult
  rw [← hresult, Call.isSent]
  cases hrefused : call.refusal? with
  | some error => exact iff_of_true (Call.isRefusal_of_refusal? hrefused) rfl
  | none => exact iff_of_false (call.not_isRefusal_answerTo _) (by simp)

theorem result_of_sent (hcall : calls[n]? = some call) (hsent : call.isSent = true)
    (hresult : (client.callAll Peer.silent calls).1[n]? = some result) :
    result = call.answerTo
      (Bytes.linesToEnd client.unread)[(calls.take n).countP Call.isSent]? := by
  rw [getElem?_callAll, hcall, Option.map_some, Option.some.injEq] at hresult
  rw [Call.isSent, Option.isNone_iff_eq_none] at hsent
  rw [hsent] at hresult
  exact hresult.symm

/-! ## The main result -/

/-- A client and a server whose output is empty or ends with a newline stay in
step, whatever is in the lines of the output.

* Each call has one result.  It is a refusal exactly if no line is sent for the
  call.
* A call that is sent is answered from the line with as many lines before it as
  there were calls sent before, and from nothing else.  The text of the line
  decides what the call returns, and a line that is no text is an error.
* Once there are no more lines every call that is sent finds the connection
  closed.
* The client sends the lines of these calls, one after another. -/
theorem keeps_in_step {output : Bytes}
    (h : output = [] ∨ output.getLast? = some Bytes.newline) (calls : List Call) :
    let lines := (Bytes.cutLines output).1
    let (results, client) := (start () output).callAll Peer.silent calls
    results.length = calls.length ∧
      (∀ n call result, calls[n]? = some call → results[n]? = some result →
        (IsRefusal result ↔ call.isSent = false) ∧
          (call.isSent = true →
            let line? := lines[(calls.take n).countP Call.isSent]?
            (∀ text, line? = some (Utf8.encode text) →
              result = call.read (String.ofList (withoutLineEnd text))) ∧
            (∀ line, line? = some line → (∀ text, Utf8.encode text ≠ line) →
              result = .error (.io .notText)) ∧
            (line? = none → result = .error .connectionClosed))) ∧
      client.sent = (calls.filter Call.isSent).flatMap Call.wire := by
  intro lines
  have hlines : Bytes.linesToEnd output = lines := by
    unfold Bytes.linesToEnd
    rw [if_pos (Bytes.tail_eq_nil_iff.mpr h), List.append_nil]
  refine ⟨length_callAll _ calls, ?_, sent_callAll Peer.silent (start () output) calls⟩
  intro n call result hcall hresult
  refine ⟨isRefusal_result_iff hcall hresult, ?_⟩
  intro hsent line?
  have hanswer : result = call.answerTo line? := by
    rw [result_of_sent hcall hsent hresult]
    exact congrArg (fun lines : List Bytes => call.answerTo lines[_]?) hlines
  refine ⟨?_, ?_, ?_⟩
  · intro text htext
    rw [hanswer, htext, call.answerTo_text]
  · intro line hline hnone
    rw [hanswer, hline, call.answerTo_of_not_text hnone]
  · intro hnone
    rw [hanswer, hnone]
    rfl

/-- A line that is no text, one that ends with a carriage return, and an empty
one.  A refused call between two others takes no line. -/
theorem keeps_in_step_odd_lines :
    let output : Bytes :=
      Utf8.ofString "OK\n" ++ ([0xFF, 0x0A] ++ Utf8.ofString "NOT FOUND\r\n\n")
    let calls : List Call :=
      [.put "k" "v", .get "two words", .get "k", .get "k", .delete "k", .send "PING"]
    let (results, client) := (start () output).callAll Peer.silent calls
    (output = [] ∨ output.getLast? = some Bytes.newline) ∧
      results =
        [.ok .done, .error (.invalidArgument "key contains whitespace"),
          .error (.io .notText), .ok (.value none), .error (.unexpectedReply ""),
          .error .connectionClosed] ∧
      client.sent = Utf8.ofString "PUT k v\nGET k\nGET k\nDELETE k\nPING\n" := by
  intro output calls
  have h : output = [] ∨ output.getLast? = some Bytes.newline := by decide
  have hsent := (keeps_in_step h calls).2.2
  exact ⟨h, by decide, hsent.trans (by decide)⟩

end Client

end LineStore
