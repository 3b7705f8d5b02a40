import LineStore.Proofs.Transitions

/-!
# Sending replies

A reply goes to the client's stream in as many pieces as the stream wants.
This module follows the bytes through any number of such pieces.

* `Sink.Offering` lists the ways one write can go.
* A run of writes that is complete has taken all that it was given:
  `Sink.taken_push_of_complete`.  A sink that is `Sink.Willing` takes everything
  at once.
* `Conversing` is the invariant of a connection's conversation: all replies
  but the one being sent have been taken in full, and of that one the stream
  has taken a part and the phase holds the rest.
* `AnsweredInOrder` is what a peer can see of it.  `Conversing.step` and
  `Conversing.answeredInOrder_step` carry both over a step.
-/

namespace LineStore

namespace Sink

/-! ## What a run of writes takes -/

/-- The ways one write of `size` bytes can go. -/
inductive Offering (sink : Sink) (size : Nat) : Offer → Prop
  | waits (ha : sink.allowance? = some 0) : Offering sink size .waits
  | fails {fault : IOFault} (hr : sink.room? = some 0) (hf : sink.writeFault? = some fault) :
    Offering sink size (.fails fault)
  /-- There is no room, and the write takes nothing. -/
  | full (hr : sink.room? = some 0) (hf : sink.writeFault? = none) :
    Offering sink size (.takes 0 sink)
  | takes {count : Nat} (hr : sink.room? ≠ some 0) (hsize : count ≤ size)
      (hroom : ∀ room ∈ sink.room?, count ≤ room)
      (hnothing : count = 0 → size = 0 ∨ sink.perWrite? = some 0) :
    Offering sink size
      (.takes count
        { sink with
          room? := sink.room?.map (· - count)
          allowance? := sink.allowance?.map (· - count) })

theorem bounded_le (count : Nat) (bound? : Option Nat) : bounded count bound? ≤ count := by
  cases bound? with
  | none => exact Nat.le_refl count
  | some bound => exact Nat.min_le_left count bound

theorem bounded_eq_zero {count : Nat} {bound? : Option Nat} (h : bounded count bound? = 0) :
    count = 0 ∨ bound? = some 0 := by
  cases bound? with
  | none => exact .inl h
  | some bound =>
    have hmin : min count bound = 0 := h
    rcases Nat.le_total count bound with hle | hle
    · exact .inl (by omega)
    · exact .inr (congrArg some (by omega))

theorem offering_offer (sink : Sink) (size : Nat) : Offering sink size (sink.offer size) := by
  unfold offer
  split
  · rename_i ha
    exact .waits ha
  · rename_i ha
    split
    · rename_i hr
      split
      · rename_i hf
        exact .fails hr hf
      · rename_i hf
        exact .full hr hf
    · rename_i hr
      have hlast := bounded_le (bounded (bounded size sink.perWrite?) sink.room?) sink.allowance?
      refine .takes hr ?_ ?_ ?_
      · exact Nat.le_trans hlast (Nat.le_trans (bounded_le _ _) (bounded_le _ _))
      · intro room hroom
        have hfit : bounded (bounded size sink.perWrite?) sink.room? ≤ room := by
          rw [Option.mem_def.mp hroom]
          exact Nat.min_le_right _ room
        exact Nat.le_trans hlast hfit
      · intro hzero
        have hfirst := (bounded_eq_zero ((bounded_eq_zero hzero).resolve_right ha)).resolve_right hr
        exact bounded_eq_zero hfirst

theorem count_le_of_offer {sink next : Sink} {size count : Nat}
    (h : sink.offer size = .takes count next) : count ≤ size := by
  have ho := offering_offer sink size
  rw [h] at ho
  cases ho with
  | full => exact Nat.zero_le size
  | takes _ hsize => exact hsize

theorem taken_pushFrom_of_complete {sink : Sink} {left taken : Nat}
    (h : (sink.pushFrom left taken).stop = .complete) :
    (sink.pushFrom left taken).taken = taken + left := by
  fun_induction pushFrom sink left taken with
  | case1 => rfl
  | case2 => simp at h
  | case3 => simp at h
  | case4 => simp at h
  | case5 sink left taken hl count next ho hc ih =>
    have hle : count ≤ left := count_le_of_offer ho
    have hsum : taken + count + (left - count) = taken + left := by omega
    rw [ih h, hsum]

theorem taken_push_of_complete {sink : Sink} {size : Nat}
    (h : (sink.push size).stop = .complete) : (sink.push size).taken = size := by
  have ht : (sink.push size).taken = 0 + size := taken_pushFrom_of_complete h
  rwa [Nat.zero_add] at ht

/-- A sink that never waits and never fails.  It may take any positive number
of bytes in one write. -/
structure Willing (sink : Sink) : Prop where
  perWrite : sink.perWrite? ≠ some 0
  room : sink.room? = none
  flush : sink.flushFault? = none
  allowance : sink.allowance? = none

theorem willing_unlimited : unlimited.Willing :=
  ⟨by decide, rfl, rfl, rfl⟩

theorem offer_of_willing {sink : Sink} (hw : sink.Willing) {size : Nat} (hs : size ≠ 0) :
    ∃ count, count ≠ 0 ∧ sink.offer size = .takes count sink := by
  obtain ⟨perWrite?, room?, writeFault?, flushFault?, allowance?, flushes⟩ := sink
  obtain ⟨hper, rfl, rfl, rfl⟩ := hw
  refine ⟨bounded size perWrite?, ?_, rfl⟩
  cases perWrite? with
  | none => exact hs
  | some bound =>
    have hb : bound ≠ 0 := fun h => hper (congrArg some h)
    simp only [bounded]
    omega

theorem pushFrom_of_willing {sink : Sink} (hw : sink.Willing) (left taken : Nat) :
    sink.pushFrom left taken = ⟨taken + left, .complete, sink⟩ := by
  induction left using Nat.strongRecOn generalizing taken with
  | ind left ih =>
    rw [pushFrom]
    split
    · rename_i hl
      rw [hl, Nat.add_zero]
    · rename_i hl
      -- the write takes something, so less is left, and the sink is as willing as before
      obtain ⟨count, hc, ho⟩ := offer_of_willing hw hl
      have hle : count ≤ left := count_le_of_offer ho
      rw [ho]
      dsimp only
      rw [if_neg hc, ih (left - count) (by omega)]
      congr 1
      omega

theorem push_of_willing {sink : Sink} (hw : sink.Willing) (size : Nat) :
    sink.push size = ⟨size, .complete, sink⟩ := by
  rw [push, pushFrom_of_willing hw, Nat.zero_add]

theorem flush_of_willing {sink : Sink} (hw : sink.Willing) : sink.flush = .ok sink := by
  rw [flush, hw.flush]

end Sink

/-! ## The conversation of a connection -/

/-- Replies as they go over the connection, one after another. -/
def Reply.wires (replies : List Reply) : Bytes :=
  replies.flatMap wire

@[simp] theorem Reply.wires_nil : wires [] = [] := rfl

@[simp] theorem Reply.wires_cons (reply : Reply) (replies : List Reply) :
    wires (reply :: replies) = reply.wire ++ wires replies := rfl

@[simp] theorem Reply.wires_append (replies more : List Reply) :
    wires (replies ++ more) = wires replies ++ wires more :=
  List.flatMap_append

/-- Bytes that answer a sequence of replies in order: they are a part of all
replies together, and hold all of them but the last in full. -/
def AnsweredInOrder (replies : List Reply) (output : Bytes) : Prop :=
  output <+: Reply.wires replies ∧ Reply.wires replies.dropLast <+: output

theorem answeredInOrder_of_prefix {earlier : List Reply} {reply : Reply} {taken : Bytes}
    (h : taken <+: reply.wire) :
    AnsweredInOrder (earlier ++ [reply]) (Reply.wires earlier ++ taken) := by
  constructor
  · rw [Reply.wires_append, Reply.wires_cons, Reply.wires_nil, List.append_nil]
    exact (List.prefix_append_right_inj _).mpr h
  · rw [List.dropLast_concat]
    exact List.prefix_append _ _

namespace Connection

/-- The invariant of a conversation: of the replies made, `output` holds all
that the phase does not still hold. -/
def Conversing (replies : List Reply) (output : Bytes) : Phase → Prop
  | .replying reply rest =>
    ∃ earlier taken, replies = earlier ++ [reply] ∧ reply.wire = taken ++ rest ∧
      output = Reply.wires earlier ++ taken
  | _ => output = Reply.wires replies

variable {connection : Connection} {shared : Shared} {replies : List Reply} {output : Bytes}

theorem Conversing.answeredInOrder {phase : Phase} (h : Conversing replies output phase) :
    AnsweredInOrder replies output := by
  cases phase with
  | replying reply rest =>
    obtain ⟨earlier, taken, rfl, hwire, rfl⟩ := h
    exact answeredInOrder_of_prefix ⟨rest, hwire.symm⟩
  | _ =>
    obtain rfl : output = Reply.wires replies := h
    refine ⟨List.prefix_refl _, ?_⟩
    rcases replies.eq_nil_or_concat with rfl | ⟨earlier, last, rfl⟩
    · exact List.nil_prefix
    · rw [List.concat_eq_append, List.dropLast_concat, Reply.wires_append]
      exact List.prefix_append _ _

/-- What one step adds to a conversation: the replies that it makes and the
bytes that the client's stream takes. -/
theorem Conversing.step (h : Conversing replies output connection.phase) {next : Connection}
    (hn : (connection.step shared).next? connection = some next) :
    Conversing (replies ++ (connection.step shared).events.filterMap Event.reply?)
      (output ++ (connection.step shared).events.flatMap Event.output) next.phase := by
  have ht := transition_step connection shared
  generalize connection.step shared = progress at hn ht
  cases ht with
  | starts hp =>
    obtain rfl : _ = next := Option.some.inj hn
    rw [hp] at h
    simpa [Conversing, List.filterMap_cons] using h
  | answers hp hl hs =>
    obtain rfl : _ = next := Option.some.inj hn
    rw [hp] at h
    obtain rfl : output = Reply.wires replies := h
    refine ⟨replies, [], ?_, rfl, ?_⟩
    · simp [answerLine, List.filterMap_cons, Command.reply_record_executeLine]
    · simp [answerLine]
  | notices hp =>
    obtain rfl : _ = next := Option.some.inj hn
    simpa [List.filterMap_cons] using h
  | reads hr ha hb =>
    obtain rfl : _ = next := Option.some.inj hn
    simpa [List.filterMap_cons] using h
  | idles =>
    obtain rfl : connection = next := Option.some.inj hn
    simpa using h
  | stalls =>
    obtain rfl : connection = next := Option.some.inj hn
    simpa using h
  | @sendsPart reply rest hp hw ht =>
    obtain rfl : _ = next := Option.some.inj hn
    rw [hp] at h
    obtain ⟨earlier, taken, rfl, hwire, rfl⟩ := h
    refine ⟨earlier, taken ++ rest.take (connection.sink.push rest.length).taken, ?_, ?_, ?_⟩
    · simp
    · rw [hwire, List.append_assoc, List.take_append_drop]
    · simp
  | sends hp hc hf =>
    obtain rfl : _ = next := Option.some.inj hn
    rw [hp] at h
    obtain ⟨earlier, taken, rfl, hwire, rfl⟩ := h
    have hall := Sink.taken_push_of_complete hc
    simp [Conversing, List.filterMap_cons, hwire, hall]
  | exceeds | closes | streamEnds | readFails | sendFails =>
    exact absurd hn (by simp [finish, finishTooLong])

/-- A conversation answers in order after any step, also after the last. -/
theorem Conversing.answeredInOrder_step (h : Conversing replies output connection.phase) :
    AnsweredInOrder (replies ++ (connection.step shared).events.filterMap Event.reply?)
      (output ++ (connection.step shared).events.flatMap Event.output) := by
  cases hn : (connection.step shared).next? connection with
  | some next => exact (h.step hn).answeredInOrder
  | none =>
    have ht := transition_step connection shared
    generalize connection.step shared = progress at hn ht
    cases ht with
    | @sendFails reply rest fault hp hf =>
      -- the only last step at which bytes of a reply still go out
      rw [hp] at h
      obtain ⟨earlier, taken, rfl, hwire, rfl⟩ := h
      have hpart : taken ++ rest.take (connection.sink.push rest.length).taken <+:
          reply.wire := by
        rw [hwire]
        exact (List.prefix_append_right_inj taken).mpr (List.take_prefix _ rest)
      have hanswered : AnsweredInOrder (earlier ++ [reply]) _ := answeredInOrder_of_prefix hpart
      simpa [finish, List.filterMap_cons] using hanswered
    | exceeds | closes | streamEnds | readFails =>
      simpa [finish, finishTooLong, List.filterMap_cons] using h.answeredInOrder
    | _ => simp [answerLine] at hn

end Connection

end LineStore
