import LineStore.Proofs.InStep

/-!
# Replies that are cut off

The stream of a server can end within a reply, before its newline.  A client
reads what there is of such a line as it reads a whole one.  This module says
when a call succeeds on it.

* `Client.SucceedsOn` are the replies on which a command succeeds, by
  `readReply_eq_ok_iff`.
* `Bytes.getElem?_linesToEnd_iff` tells the cut line from the whole ones.
* The main result says for which outputs and calls a success needs a whole
  line.
* `get_of_cut_value`: there are many others.  A value that is cut off between
  two characters is taken for a shorter value.
-/

namespace LineStore

/-- The lines of a stream up to its end are the complete ones, and behind them
the tail. -/
theorem Bytes.getElem?_linesToEnd_iff {bytes line : Bytes} {n : Nat} :
    (linesToEnd bytes)[n]? = some line ↔
      (cutLines bytes).1[n]? = some line ∨
        n = (cutLines bytes).1.length ∧ (cutLines bytes).2 ≠ [] ∧ (cutLines bytes).2 = line := by
  unfold linesToEnd
  rcases Nat.lt_trichotomy n (cutLines bytes).1.length with hlt | rfl | hgt
  · rw [List.getElem?_append_left hlt]
    exact (or_iff_left fun h => Nat.ne_of_lt hlt h.1).symm
  · rw [List.getElem?_append_right (Nat.le_refl _), Nat.sub_self,
      List.getElem?_eq_none (Nat.le_refl _)]
    split
    · rename_i hnil
      simp [hnil]
    · rename_i hne
      simp [hne]
  · have hlength : (if (cutLines bytes).2 = [] then [] else [(cutLines bytes).2]).length ≤ 1 := by
      split <;> simp
    rw [List.getElem?_append_right (Nat.le_of_lt hgt), List.getElem?_eq_none (by omega),
      List.getElem?_eq_none (Nat.le_of_lt hgt)]
    simp only [reduceCtorEq, false_or, false_iff, not_and]
    intro hn
    omega

namespace Client

/-- The replies on which a command succeeds. -/
def SucceedsOn : Command String → String → Prop
  | .put .., reply => reply = Reply.okText
  | .get _, reply => reply = Reply.notFoundText ∨
      reply ≠ Reply.invalidInputText ∧ reply.toList ≠ [] ∧ ' ' ∉ reply.toList
  | .delete _, reply => reply = Reply.okText

theorem error_ne_ok (error : ClientError) :
    ¬ ∃ returned, (.error error : Except ClientError Returned) = .ok returned := by
  simp

theorem readDone_eq_ok_iff {reply : String} :
    (∃ returned, (readDone reply).map (fun () => Returned.done) = .ok returned) ↔
      reply = Reply.okText := by
  unfold readDone
  split
  · rename_i hok
    exact iff_of_true ⟨_, rfl⟩ hok
  · rename_i hother
    exact iff_of_false (error_ne_ok _) hother

/-- A command succeeds on these replies, and on no others. -/
theorem readReply_eq_ok_iff {reply : String} {command : Command String} :
    (∃ returned, readReply reply command = .ok returned) ↔ SucceedsOn command reply := by
  cases command with
  | put key value => exact readDone_eq_ok_iff
  | get key =>
    show (∃ returned, (readValue reply).map Returned.value = .ok returned) ↔ (_ ∨ _)
    unfold readValue
    by_cases hnone : reply = Reply.notFoundText
    · rw [if_pos hnone]
      exact iff_of_true ⟨_, rfl⟩ (.inl hnone)
    rw [if_neg hnone, or_iff_right hnone]
    by_cases hinvalid : reply = Reply.invalidInputText
    · rw [if_pos hinvalid]
      exact iff_of_false (error_ne_ok _) fun h => h.1 hinvalid
    rw [if_neg hinvalid, and_iff_right hinvalid]
    by_cases hodd : reply.toList = [] ∨ ' ' ∈ reply.toList
    · rw [if_pos (by simpa using hodd)]
      exact iff_of_false (error_ne_ok _) (not_and_or.mpr (hodd.imp not_not.mpr not_not.mpr))
    · rw [if_neg (by simpa using hodd)]
      exact iff_of_true ⟨_, rfl⟩ (not_or.mp hodd)
  | delete key => exact readDone_eq_ok_iff

/-! ## The reply that is cut off -/

theorem answerTo_eq_ok_iff {command : Command String} {line : Bytes} :
    (∃ returned, (Call.ofCommand command).answerTo (some line) = .ok returned) ↔
      ∃ text, Utf8.encode text = line ∧
        SucceedsOn command (String.ofList (withoutLineEnd text)) := by
  by_cases htext : ∃ text, Utf8.encode text = line
  · obtain ⟨text, rfl⟩ := htext
    rw [Call.answerTo_text, Call.read_ofCommand, readReply_eq_ok_iff]
    constructor
    · intro h
      exact ⟨text, rfl, h⟩
    · rintro ⟨other, hother, h⟩
      rwa [Utf8.encode_injective hother] at h
  · rw [Call.answerTo_of_not_text _ (not_exists.mp htext)]
    exact iff_of_false (error_ne_ok _) fun ⟨text, h, _⟩ => htext ⟨text, h⟩

variable {output : Bytes} {calls : List Call} {n : Nat} {command : Command String}

/-- A command succeeds if it can be sent and finds a line to succeed on, whole
or cut off. -/
theorem exists_result_eq_ok_iff (hcall : calls[n]? = some (.ofCommand command)) :
    (∃ returned,
        ((start () output).callAll Peer.silent calls).1[n]? = some (.ok returned)) ↔
      command.Sendable ∧ ∃ text,
        (Bytes.linesToEnd output)[(calls.take n).countP Call.isSent]? =
            some (Utf8.encode text) ∧
          SucceedsOn command (String.ofList (withoutLineEnd text)) := by
  rw [← refusal?_eq_none_iff, getElem?_callAll, hcall, Option.map_some,
    Call.refusal?_ofCommand]
  simp only [Option.some.injEq]
  cases hrefused : refusal? command with
  | some error => exact iff_of_false (error_ne_ok _) fun h => Option.some_ne_none _ h.1
  | none =>
    rw [and_iff_right rfl]
    show (∃ returned, (Call.ofCommand command).answerTo (Bytes.linesToEnd output)[_]? = _) ↔ _
    cases (Bytes.linesToEnd output)[(calls.take n).countP Call.isSent]? with
    | none => exact iff_of_false (error_ne_ok _) (by simp)
    | some line =>
      rw [answerTo_eq_ok_iff]
      simp only [Option.some.injEq, eq_comm]

/-- For which outputs and calls a success needs a whole line, ended by its
newline: the command that meets what is cut off at the end of the output, if one
does, must not be one that succeeds on it.

The lines before the end are no part of this, and neither is a command whose
arguments are refused. -/
theorem succeeds_on_whole_lines_iff (output : Bytes) (calls : List Call) :
    let (lines, tail) := Bytes.cutLines output
    let results := ((start () output).callAll Peer.silent calls).1
    (∀ n command, calls[n]? = some (.ofCommand command) →
        (∃ returned, results[n]? = some (.ok returned)) →
        (calls.take n).countP Call.isSent < lines.length) ↔
      ∀ n command, calls[n]? = some (.ofCommand command) → command.Sendable →
        (calls.take n).countP Call.isSent = lines.length → tail ≠ [] →
        ∀ text, Utf8.encode text = tail →
          ¬ SucceedsOn command (String.ofList (withoutLineEnd text)) := by
  dsimp only
  constructor
  · intro hwhole n command hcall hsendable hlast htail text htext hsucceeds
    have hline := Bytes.getElem?_linesToEnd_iff.mpr (.inr ⟨hlast, htail, htext.symm⟩)
    have hlt := hwhole n command hcall
      ((exists_result_eq_ok_iff hcall).mpr ⟨hsendable, text, hline, hsucceeds⟩)
    omega
  · intro hcut n command hcall hok
    obtain ⟨hsendable, text, hline, hsucceeds⟩ := (exists_result_eq_ok_iff hcall).mp hok
    rcases Bytes.getElem?_linesToEnd_iff.mp hline with hwhole | ⟨hlast, htail, htext⟩
    · exact (List.getElem?_eq_some_iff.mp hwhole).1
    · exact absurd hsucceeds (hcut n command hcall hsendable hlast htail text htext.symm)

/-- The reply to a client that asks for a name ends after three of its five
letters, and the call succeeds. -/
theorem succeeds_without_whole_line :
    let output := Utf8.ofString "man"
    let calls : List Call := [.get "name"]
    let results := ((start () output).callAll Peer.silent calls).1
    output <+: (Reply.value (Utf8.ofString "mango")).wire ∧
      ¬ ∀ n command, calls[n]? = some (.ofCommand command) →
        (∃ returned, results[n]? = some (.ok returned)) →
        (calls.take n).countP Call.isSent < (Bytes.cutLines output).1.length := by
  intro output calls results
  refine ⟨by decide, ?_⟩
  intro h
  have hok : results[0]? = some (.ok (.value (some "man"))) := by decide
  have hlt := h 0 (.get "name") rfl ⟨_, hok⟩
  exact absurd hlt (by decide)

theorem withoutLineEnd_word {text : List Char} (h : Text.IsWord text) :
    withoutLineEnd text = text := by
  have hblank : ∀ c, Text.isBlank c = true → c ∉ text := by
    intro c hc hmem
    simp [h.2 c hmem] at hc
  rw [← withoutLineEnd_append_newline]
  exact withoutLineEnd_newline (hblank '\n' (by decide))
    fun hlast => hblank '\r' (by decide) (List.mem_of_getLast? hlast)

/-- A value that is cut off between two characters is taken for a shorter
value. -/
theorem get_of_cut_value {key value : String} {part : List Char}
    (hkey : Text.IsWord key.toList) (hvalue : Text.IsWord value.toList)
    (hpart : part <+: value.toList) (hne : part ≠ []) :
    ((start () (Utf8.encode part)).call Peer.silent (.get key)).1 =
      .ok (.value (some (String.ofList part))) := by
  have hword : Text.IsWord part := ⟨hne, fun c hc => hvalue.2 c (hpart.mem hc)⟩
  have hfit : (Call.get key).refusal? = none := complaint?_eq_none_iff.mpr hkey
  have hnewline : Bytes.newline ∉ Utf8.encode part := by
    intro hmem
    exact Bool.noConfusion (hword.2 _ (Utf8.newline_mem_encode.mp hmem))
  have hbytes : Utf8.encode part ≠ [] := Utf8.encode_injective.ne hne
  rw [result_call, hfit, start, Bytes.linesToEnd_of_notMem hnewline hbytes, List.head?_cons]
  dsimp only
  rw [Call.answerTo_text, withoutLineEnd_word hword]
  exact readReply_get_value key (by rwa [String.toList_ofList])

end Client

end LineStore
