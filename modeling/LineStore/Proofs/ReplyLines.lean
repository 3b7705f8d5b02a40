import LineStore.Proofs.GlobalOrder
import LineStore.Proofs.StoredWords

/-!
# Replies are lines

A found value is sent bare, so a value with a newline or a blank in it could
pass for two replies or for another reply.  A store that clients have filled
holds words only, and then neither can happen.

* `Reply.Proper` lists the replies of a store that holds words.  Each is one
  line.
* `Reply.cutLines_wires` and `AnsweredInOrder.cutLines` divide what was sent
  into the replies, also when the last of them is cut off.
* `Command.reply_eq_of_wire_eq`: what a request is answered with can be read
  off the bytes of the reply.
* The main result is about all stores that clients can reach, and about all
  streams to them.
-/

namespace LineStore

theorem Bytes.IsWord.newline_notMem {bytes : Bytes} (h : bytes.IsWord) : newline ∉ bytes := by
  obtain ⟨text, rfl, hword⟩ := h
  intro hmem
  exact Bool.noConfusion (hword.2 _ (Utf8.newline_mem_encode.mp hmem))

theorem Bytes.isWord_ofString_iff {text : String} :
    Bytes.IsWord (Utf8.ofString text) ↔ Text.IsWord text.toList := by
  constructor
  · rintro ⟨chars, hencode, hword⟩
    rwa [Utf8.encode_injective hencode] at hword
  · intro h
    exact ⟨text.toList, rfl, h⟩

namespace Reply

/-- The replies of a store that holds words. -/
inductive Proper : Reply → Prop
  | ok : Proper .ok
  | value {value : Bytes} (h : value.IsWord) : Proper (.value value)
  | notFound : Proper .notFound
  | reservedKeyword : Proper (.reservedKeyword Store.reserved)
  | invalidInput : Proper .invalidInput

variable {reply : Reply} {replies : List Reply}

theorem Proper.newline_notMem (h : reply.Proper) : Bytes.newline ∉ reply.body := by
  cases h with
  | value h => exact h.newline_notMem
  | ok | notFound | reservedKeyword | invalidInput => decide

/-- The texts of the replies. -/
theorem Proper.body (h : reply.Proper) :
    reply.body ∈ [Utf8.ofString "OK", Utf8.ofString "NOT FOUND", Utf8.ofString "INVALID INPUT",
        Utf8.ofString "RESERVED KEYWORD __TOMBSTONE__"] ∨ Bytes.IsWord reply.body := by
  cases h with
  | value h => exact .inr h
  | ok | notFound | reservedKeyword | invalidInput =>
    refine .inl ?_
    decide

/-! ## Replies one after another -/

theorem wires_eq (replies : List Reply) : wires replies = Bytes.endLines (replies.map body) := by
  unfold wires Bytes.endLines
  rw [List.flatMap_map]
  rfl

theorem newline_notMem_bodies (h : ∀ reply ∈ replies, reply.Proper) :
    ∀ line ∈ replies.map body, Bytes.newline ∉ line := by
  intro line hline
  obtain ⟨reply, hreply, rfl⟩ := List.mem_map.mp hline
  exact (h reply hreply).newline_notMem

/-- What was sent falls into the replies again. -/
theorem cutLines_wires (h : ∀ reply ∈ replies, reply.Proper) :
    Bytes.cutLines (wires replies) = (replies.map body, []) := by
  have hcut := Bytes.cutLines_endLines (newline_notMem_bodies h) []
  rw [List.append_nil, ← wires_eq] at hcut
  simpa using hcut

end Reply

/-- What was sent of replies that were answered in order falls into all of
them, or into all but the last and a part of the last. -/
theorem AnsweredInOrder.cutLines {replies : List Reply} {output : Bytes}
    (h : AnsweredInOrder replies output) (hproper : ∀ reply ∈ replies, reply.Proper) :
    Bytes.cutLines output = (replies.map Reply.body, []) ∨
      ∃ (earlier : List Reply) (last : Reply) (part : Bytes), replies = earlier ++ [last] ∧
        Bytes.cutLines output = (earlier.map Reply.body, part) ∧ part <+: last.body := by
  obtain ⟨hpart, hwhole⟩ := h
  rcases replies.eq_nil_or_concat with rfl | ⟨earlier, last, rfl⟩
  · obtain rfl : output = [] := List.prefix_nil.mp hpart
    exact .inl rfl
  · rw [List.concat_eq_append] at hproper hpart hwhole ⊢
    rw [List.dropLast_concat] at hwhole
    obtain ⟨part, rfl⟩ := hwhole
    rw [Reply.wires_append, Reply.wires_cons, Reply.wires_nil, List.append_nil,
      List.prefix_append_right_inj] at hpart
    rcases List.prefix_concat_iff.mp hpart with rfl | hbody
    · -- the newline of the last reply is out as well
      left
      have hall := Reply.cutLines_wires hproper
      rwa [Reply.wires_append, Reply.wires_cons, Reply.wires_nil, List.append_nil] at hall
    · right
      have hlast : Bytes.newline ∉ part := fun hmem =>
        (hproper last (by simp)).newline_notMem (hbody.subset hmem)
      have hearlier : ∀ reply ∈ earlier, reply.Proper := fun reply hmem =>
        hproper reply (List.mem_append_left _ hmem)
      refine ⟨earlier, last, part, rfl, ?_, hbody⟩
      rw [Reply.wires_eq, Bytes.cutLines_endLines (Reply.newline_notMem_bodies hearlier),
        Bytes.cutLines_of_notMem hlast, List.append_nil]

/-! ## The replies of a store that holds words -/

theorem Store.HoldsWords.isWord_of_get? {store : Store} (h : store.HoldsWords) {key value : Bytes}
    (hget : store.get? key = some value) : value.IsWord :=
  (h.of_get? hget).value

theorem Reply.body_eq_of_wire_eq {reply other : Reply} (h : reply.wire = other.wire) :
    reply.body = other.body :=
  List.append_cancel_right h

/-- No value has the text of the reply that there is none. -/
theorem Bytes.IsWord.ne_notFound {value : Bytes} (h : value.IsWord) :
    value ≠ Reply.notFound.body := by
  rintro rfl
  exact absurd (Bytes.isWord_ofString_iff.mp h) (by decide)

namespace Command

variable {store other : Store}

theorem proper_execute (h : store.HoldsWords) (command : Command Bytes) :
    (execute store command).reply.Proper := by
  cases command with
  | put key value =>
    rw [reply_execute_put]
    split
    · rename_i hv
      rw [hv]
      exact .reservedKeyword
    · exact .ok
  | get key =>
    rw [reply_execute_get]
    cases hget : store.get? key with
    | none => exact .notFound
    | some value => exact .value (h.isWord_of_get? hget)
  | delete key =>
    rw [reply_execute_delete]
    cases (store.get? key).isSome
    · exact .notFound
    · exact .ok

theorem proper_executeLine (h : store.HoldsWords) (line : Bytes) :
    (executeLine store line).reply.Proper := by
  unfold executeLine
  cases (ofLine line).map (map Text.Word.bytes) with
  | error error => exact .invalidInput
  | ok command => exact proper_execute h command

theorem proper_executeLines (h : store.HoldsWords) (lines : List Bytes) :
    ∀ reply ∈ (executeLines store lines).1, reply.Proper := by
  induction lines generalizing store with
  | nil => simp
  | cons line lines ih =>
    intro reply hreply
    rcases List.mem_cons.mp hreply with rfl | hmem
    · exact proper_executeLine h line
    · exact ih (holdsWords_executeLine h line) reply hmem

theorem reply_eq_of_wire_eq_execute (h : store.HoldsWords) (h' : other.HoldsWords)
    {command : Command Bytes}
    (hwire : (execute store command).reply.wire = (execute other command).reply.wire) :
    (execute store command).reply = (execute other command).reply := by
  have hbody := Reply.body_eq_of_wire_eq hwire
  cases command with
  | put key value => rw [reply_execute_put, reply_execute_put]
  | get key =>
    rw [reply_execute_get, reply_execute_get] at hbody ⊢
    cases hget : store.get? key with
    | none =>
      cases hget' : other.get? key with
      | none => rfl
      | some value =>
        rw [hget, hget'] at hbody
        exact absurd hbody.symm (h'.isWord_of_get? hget').ne_notFound
    | some value =>
      rw [hget] at hbody
      cases hget' : other.get? key with
      | none =>
        rw [hget'] at hbody
        exact absurd hbody (h.isWord_of_get? hget).ne_notFound
      | some value' =>
        rw [hget'] at hbody
        exact congrArg Reply.value hbody
  | delete key =>
    rw [reply_execute_delete, reply_execute_delete] at hbody ⊢
    generalize (store.get? key).isSome = existed at hbody ⊢
    generalize (other.get? key).isSome = existed' at hbody ⊢
    revert existed existed'
    decide

/-- Two stores that hold words and send the same bytes for a line have made
the same reply to it. -/
theorem reply_eq_of_wire_eq (h : store.HoldsWords) (h' : other.HoldsWords) {line : Bytes}
    (hwire : (executeLine store line).reply.wire = (executeLine other line).reply.wire) :
    (executeLine store line).reply = (executeLine other line).reply := by
  unfold executeLine at hwire ⊢
  cases hread : (ofLine line).map (map Text.Word.bytes) with
  | error error => rfl
  | ok command =>
    rw [hread] at hwire
    exact reply_eq_of_wire_eq_execute h h' hwire

end Command

/-! ## The main result -/

namespace Hub

open Connection

variable {hub : Hub} {id : Nat}

/-- A store that connections share executes lines, and nothing else happens to
it. -/
theorem exists_lines_of_play (hub : Hub) (moves : List Move) :
    ∃ lines : List Bytes,
      (hub.play moves).1.shared.store = (Command.executeLines hub.shared.store lines).2 :=
  ⟨_, (congrArg Prod.snd (executeLines_of_play hub moves).1).symm⟩

theorem holdsWords_play (h : hub.shared.store.HoldsWords) (moves : List Move) :
    (hub.play moves).1.shared.store.HoldsWords := by
  obtain ⟨lines, hstore⟩ := exists_lines_of_play hub moves
  rw [hstore]
  exact Command.holdsWords_executeLines h lines

theorem proper_play (h : hub.shared.store.HoldsWords) (moves : List Move) :
    ∀ reply ∈ restrict id (repliesOf (hub.play moves).2), reply.Proper := by
  intro reply hmem
  have hreplies : _ = (repliesOf (hub.play moves).2).map Prod.snd :=
    congrArg Prod.fst (executeLines_of_play hub moves).1
  have hall : reply ∈ (repliesOf (hub.play moves).2).map Prod.snd :=
    (List.filter_sublist.map Prod.snd).mem hmem
  rw [← hreplies] at hall
  exact Command.proper_executeLines h _ reply hall

/-- Replies cannot be taken for one another, and not for several.

Whatever lines a store has executed, it holds words only.  The reply to any
further line is one line of text, and what it says can be read off its bytes.

Whatever connections do, their store is one of these.  What a client's stream
has taken falls, at its newlines, into the replies to the lines executed, one
after another, of which the last may be there in part. -/
theorem replies_unambiguous (place : Bytes → Fin Store.shardCount) :
    (∀ (lines : List Bytes) (line : Bytes),
      let store := (Command.executeLines (Store.empty place) lines).2
      let reply := (Command.executeLine store line).reply
      (∀ binding ∈ store.toList, Store.IsWordBinding binding) ∧
        (reply.wire = reply.body ++ [Bytes.newline] ∧ Bytes.newline ∉ reply.body ∧
          (reply.body ∈ [Utf8.ofString "OK", Utf8.ofString "NOT FOUND",
              Utf8.ofString "INVALID INPUT", Utf8.ofString "RESERVED KEYWORD __TOMBSTONE__"] ∨
            Bytes.IsWord reply.body)) ∧
        ∀ (place' : Bytes → Fin Store.shardCount) (lines' : List Bytes),
          let store' := (Command.executeLines (Store.empty place') lines').2
          (Command.executeLine store' line).reply.wire = reply.wire →
            (Command.executeLine store' line).reply = reply) ∧
      ∀ (signal : Signal) (before during : List Move) (id : Nat) (setup : Setup),
        (∀ move ∈ during, move.connects id = false) →
        let opened := ((Hub.new (Store.empty place) signal).play before).1.apply (.connect id setup)
        let now := (opened.play during).1
        let replies := restrict id (repliesOf (opened.play during).2)
        let output := output (opened.play during).2 id
        (∃ lines : List Bytes,
            now.shared.store = (Command.executeLines (Store.empty place) lines).2) ∧
          replies.length = (restrict id (linesOf (opened.play during).2)).length ∧
          (Bytes.cutLines output = (replies.map Reply.body, []) ∨
            ∃ (earlier : List Reply) (last : Reply) (part : Bytes),
              replies = earlier ++ [last] ∧
                Bytes.cutLines output = (earlier.map Reply.body, part) ∧ part <+: last.body) := by
  have hempty : ∀ other, (Store.empty other).HoldsWords := Store.allBindings_empty
  constructor
  · intro lines line store reply
    have hstore : store.HoldsWords := Command.holdsWords_executeLines (hempty place) lines
    have hreply : reply.Proper := Command.proper_executeLine hstore line
    refine ⟨fun _ => hstore.of_mem_toList, ⟨rfl, hreply.newline_notMem, hreply.body⟩, ?_⟩
    intro place' lines' store' hwire
    have hstore' : store'.HoldsWords := Command.holdsWords_executeLines (hempty place') lines'
    exact Command.reply_eq_of_wire_eq hstore' hstore hwire
  · intro signal before during id setup hc opened now replies output
    have hopened : opened.shared.store.HoldsWords :=
      holdsWords_play (hempty place) before
    have hlife := life_of_play ((Hub.new (Store.empty place) signal).play before).1 id setup hc
    refine ⟨?_, ?_, ?_⟩
    · have hnow := exists_lines_of_play (Hub.new (Store.empty place) signal)
        (before ++ .stimulus (.connect id setup) :: during)
      rwa [play_append, play_cons] at hnow
    · have hlength := hlife.length_lines
      rw [← restrict_gather, ← restrict_gather] at hlength
      exact hlength.symm
    · have hanswered := hlife.answeredInOrder rfl
      rw [← restrict_gather, ← output_eq] at hanswered
      exact hanswered.cutLines (proper_play hopened during)

/-- A value with the text of another reply, read from two stores, and a stream
that has stopped within the third of three replies. -/
theorem replies_unambiguous_look_alike :
    let setup : Setup :=
      ⟨"127.0.0.1:50000", 64, true, true, { Sink.unlimited with allowance? := some 8 }⟩
    let during : List Move :=
      [.advance 1, .stimulus (.send 1 (Utf8.ofString "PUT k OK\nGET k\nGET j\n")), .advance 1,
        .advance 1, .advance 1, .advance 1, .advance 1, .advance 1, .advance 1]
    let opened := (Hub.new .new (.new false)).apply (.connect 1 setup)
    let replies := restrict 1 (repliesOf (opened.play during).2)
    let store := (Command.executeLines .new [Utf8.ofString "PUT k OK"]).2
    let store' :=
      (Command.executeLines (.empty fun _ => ⟨0, by decide⟩)
        [Utf8.ofString "PUT j k", Utf8.ofString "put\u3000k\u3000OK"]).2
    (Command.executeLine store' (Utf8.ofString "GET k")).reply =
        (Command.executeLine store (Utf8.ofString "GET k")).reply ∧
      ∃ (earlier : List Reply) (last : Reply) (part : Bytes),
        replies = earlier ++ [last] ∧
          Bytes.cutLines (output (opened.play during).2 1) = (earlier.map Reply.body, part) ∧
          part <+: last.body := by
  intro setup during opened replies store store'
  obtain ⟨hstores, hschedules⟩ := replies_unambiguous Store.spread
  constructor
  · exact (hstores _ (Utf8.ofString "GET k")).2.2 _ _ (by decide +kernel)
  · obtain ⟨-, -, hcut⟩ := hschedules (.new false) [] during 1 setup (by decide)
    exact hcut.resolve_left (by decide +kernel)

end Hub

end LineStore
