import LineStore.Connection.Settle
import LineStore.Proofs.Sending

/-!
# A stream in any pieces

A client's bytes come in reads of any size, and a newline can stand anywhere
in a read.  This module follows a connection through all reads of a stream, on
a sink that takes everything and with no signal to shut down.

* `Executes` says that events are those of a sequence of lines: the lines are
  executed, the replies made and sent, and the store left behind.
* `settle_line` and `settle_read` are the two things that such a connection
  does, as equations for `settle`.
* `settle_reads` is the induction over them.  What the connection does is a
  function of the stream: the reads appear only through their concatenation.
* The main result adds the end of the stream, or a failing read.

The limit on lines is checked at two places, on a complete line and on a
buffer without a newline.  Both checks refuse the same streams, by
`Bytes.tooLong_of_lineEnd?` and `Bytes.tooLong_of_length`.
-/

namespace LineStore.Connection

open Bytes

/-- The part of a run behind some events. -/
def Settled.after (events : List Event) (settled : Settled) : Settled :=
  { settled with events := events ++ settled.events }

theorem Settled.after_after (events more : List Event) (settled : Settled) :
    (settled.after more).after events = settled.after (events ++ more) := by
  simp [after]

/-! ## The events of a sequence of lines -/

/-- Between two shared states, events execute exactly the given lines: each is
answered, the replies are sent in full, and nothing ends. -/
structure Executes (before after : Shared) (lines : List Bytes) (events : List Event) :
    Prop where
  framed : events.filterMap Event.line? = lines
  answered : events.filterMap Event.reply? = (Command.executeLines before.store lines).1
  sent :
    events.flatMap Event.output = Reply.wires (Command.executeLines before.store lines).1
  unended : events.filterMap Event.outcome? = []
  store : after.store = (Command.executeLines before.store lines).2
  signal : after.signal = before.signal
  commands :
    after.traffic.commands = before.traffic.commands + UInt64.ofNat lines.length

theorem Executes.trans {first second third : Shared} {lines more : List Bytes}
    {events later : List Event} (h : Executes first second lines events)
    (h' : Executes second third more later) :
    Executes first third (lines ++ more) (events ++ later) where
  framed := by rw [List.filterMap_append, h.framed, h'.framed]
  answered := by
    rw [List.filterMap_append, h.answered, h'.answered, Command.executeLines_append, h.store]
  sent := by
    rw [List.flatMap_append, h.sent, h'.sent, Command.executeLines_append, h.store,
      Reply.wires_append]
  unended := by rw [List.filterMap_append, h.unended, h'.unended, List.append_nil]
  store := by rw [h'.store, h.store, Command.executeLines_append]
  signal := h'.signal.trans h.signal
  commands := by
    rw [h'.commands, h.commands, List.length_append, UInt64.ofNat_add, UInt64.add_assoc]

theorem executes_nil (shared : Shared) : Executes shared shared [] [] :=
  ⟨rfl, rfl, rfl, rfl, rfl, rfl, (UInt64.add_zero _).symm⟩

theorem executes_received (shared : Shared) (bytes : Bytes) :
    Executes shared { shared with traffic := shared.traffic.received bytes.length } []
      [.received bytes] :=
  ⟨rfl, rfl, rfl, rfl, rfl, rfl, (UInt64.add_zero _).symm⟩

/-- The events of one line, executed and answered in full. -/
theorem executes_line (shared : Shared) (line : Bytes) (left : Nat) :
    let execution := Command.executeLine shared.store line
    Executes shared
      { shared with
        store := execution.store
        traffic := shared.traffic.processed.sent execution.reply.wire.length }
      [line]
      ([.framed line left, .answered execution.record] ++
        (takenEvents execution.reply.wire execution.reply.wire.length ++
          [.sent execution.reply])) where
  framed := by simp [List.filterMap_cons]
  answered := by
    simp [List.filterMap_cons, Command.executeLines, Command.reply_record_executeLine]
  sent := by simp [Command.executeLines]
  unended := by
    unfold takenEvents
    split <;> rfl
  store := rfl
  signal := rfl
  commands := rfl

/-! ## One line, one read -/

/-- Nothing outside holds the connection up: its sink takes everything, and it
has no signal to notice. -/
structure Undisturbed (connection : Connection) (signal : Signal) : Prop where
  willing : connection.sink.Willing
  unsignalled : connection.listener.signalled = false
  deaf : connection.listener.hears signal = false

variable {connection : Connection} {shared : Shared}

theorem step_of_replying (hw : connection.sink.Willing) {reply : Reply} {rest : Bytes}
    (hp : connection.phase = .replying reply rest) :
    connection.step shared =
      .goes { shared with traffic := shared.traffic.sent reply.wire.length }
        { connection with phase := .reading }
        (takenEvents rest rest.length ++ [.sent reply]) := by
  simp only [step, hp, sendRest, Sink.push_of_willing hw, Sink.flush_of_willing hw]
  rfl

/-- A line within the limit is executed and answered in full. -/
theorem settle_line (hw : connection.sink.Willing) (hp : connection.phase = .reading)
    {size : Nat} (hl : lineEnd? connection.buffer = some size)
    (hs : size ≤ connection.maxLine) :
    ∃ (after : Shared) (next : Connection) (events : List Event),
      Executes shared after [connection.buffer.take size] events ∧
        next =
          { connection with buffer := connection.buffer.drop (size + 1), phase := .reading } ∧
        connection.settle shared = (next.settle after).after events ∧
        next.work < connection.work := by
  have hline : connection.step shared = connection.answerLine shared size := by
    simp only [step, hp, hl, if_neg (Nat.not_lt.mpr hs)]
  let execution := Command.executeLine shared.store (connection.buffer.take size)
  let executed : Shared :=
    { shared with store := execution.store, traffic := shared.traffic.processed }
  let replying : Connection :=
    { connection with
      buffer := connection.buffer.drop (size + 1)
      phase := .replying execution.reply execution.reply.wire }
  have hwilling : replying.sink.Willing := hw
  have hsend : replying.step executed = _ := step_of_replying hwilling rfl
  have hexecutes := executes_line shared (connection.buffer.take size)
    (connection.buffer.drop (size + 1)).length
  refine ⟨_, _, _, hexecutes, rfl, ?_,
    Nat.lt_trans (work_lt_of_goes hsend) (work_lt_of_goes hline)⟩
  rw [settle_of_goes hline, settle_of_goes hsend]
  exact Settled.after_after _ _ _

/-- A connection without a line in its buffer reads, if its buffer is within
the limit. -/
theorem settle_read (hu : connection.Undisturbed shared.signal)
    (hp : connection.phase = .reading) (hl : lineEnd? connection.buffer = none)
    (hb : connection.buffer.length ≤ connection.maxLine) {bytes : Bytes}
    {arrivals : List Arrival} (ha : connection.arrivals = .data bytes :: arrivals)
    (hne : bytes ≠ []) :
    ∃ (after : Shared) (next : Connection) (events : List Event),
      Executes shared after [] events ∧
        next = { connection with arrivals, buffer := connection.buffer ++ bytes } ∧
        connection.settle shared = (next.settle after).after events ∧
        next.work < connection.work := by
  have hread : connection.step shared =
      .goes { shared with traffic := shared.traffic.received bytes.length }
        { connection with arrivals, buffer := connection.buffer ++ bytes }
        [.received bytes] := by
    simp [step, hp, hl, readMore, hu.unsignalled, Nat.not_lt.mpr hb, Listener.poll, hu.deaf,
      read, ha, hne]
  exact ⟨_, _, _, executes_received shared bytes, rfl, settle_of_goes hread,
    work_lt_of_goes hread⟩

/-! ## All reads of a stream -/

/-- A connection that has come to the end of what was sent: its buffer holds
the tail, and the reads are used up. -/
def afterReads (connection : Connection) (stream : Bytes) (later : List Arrival) :
    Connection :=
  { connection with buffer := (cutLines stream).2, arrivals := later, phase := .reading }

/-- What a connection does with the rest of a stream: it executes the lines in
front of the first piece that is too long.  Then it ends if there is such a
piece, and has come to the end of what was sent otherwise. -/
def Digests (connection : Connection) (shared : Shared) (stream : Bytes)
    (later : List Arrival) : Prop :=
  ∃ (after : Shared) (events : List Event),
    Executes shared after (linesWithin connection.maxLine stream) events ∧
      (Fits connection.maxLine stream →
        connection.settle shared =
          ((connection.afterReads stream later).settle after).after events) ∧
      (¬ Fits connection.maxLine stream →
        ∃ size, connection.settle shared =
          ⟨{ after with traffic := after.traffic.closed }, none,
            events ++ [.tooLong size connection.maxLine,
              .ended connection.detached (.failed (.lineTooLong connection.maxLine))]⟩)

/-- A connection that ends because of a long line at once has digested its
stream. -/
theorem digests_of_tooLong {stream : Bytes} {later : List Arrival} {size : Nat}
    (hstep : connection.step shared = connection.finishTooLong shared size)
    (hlong : linesWithin connection.maxLine stream = [] ∧ ¬ Fits connection.maxLine stream) :
    Digests connection shared stream later := by
  refine ⟨shared, [], ?_, fun hfits => absurd hfits hlong.2, fun _ => ⟨size, ?_⟩⟩
  · rw [hlong.1]
    exact executes_nil shared
  · exact settle_of_ends hstep

/-- Events in front: what a connection digests after them it digests with
them. -/
theorem Digests.of_settle {next : Connection} {middle : Shared} {buffer stream rest : Bytes}
    {arrivals later : List Arrival} {phase : Phase} {lines : List Bytes}
    {events : List Event} (h : Digests next middle rest later)
    (hnext : next = { connection with buffer, arrivals, phase })
    (hexecutes : Executes shared middle lines events)
    (hsettle : connection.settle shared = (next.settle middle).after events)
    (hlines : linesWithin connection.maxLine stream =
      lines ++ linesWithin connection.maxLine rest)
    (hfits : Fits connection.maxLine stream ↔ Fits connection.maxLine rest)
    (htail : (cutLines stream).2 = (cutLines rest).2) :
    Digests connection shared stream later := by
  subst hnext
  obtain ⟨after, moreEvents, hrest, hshort, hlong⟩ := h
  refine ⟨after, events ++ moreEvents, ?_, ?_, ?_⟩
  · rw [hlines]
    exact hexecutes.trans hrest
  · intro hf
    rw [hsettle, hshort (hfits.mp hf), Settled.after_after]
    simp only [afterReads, htail]
  · intro hf
    obtain ⟨size, hends⟩ := hlong (mt hfits.mpr hf)
    refine ⟨size, ?_⟩
    rw [hsettle, hends]
    simp [Settled.after]

/-- A connection whose reads are used up, and whose buffer is a tail within
the limit, has nothing to digest. -/
theorem digests_tail {later : List Arrival} (hp : connection.phase = .reading)
    (hl : lineEnd? connection.buffer = none)
    (hb : connection.buffer.length ≤ connection.maxLine)
    (ha : connection.arrivals = later) :
    Digests connection shared connection.buffer later := by
  have hcut : cutLines connection.buffer = ([], connection.buffer) :=
    cutLines_of_notMem (lineEnd?_eq_none_iff.mp hl)
  have hthis : connection.afterReads connection.buffer later = connection := by
    unfold afterReads
    rw [hcut, ← hp, ← ha]
  have hfits : Fits connection.maxLine connection.buffer := by
    simpa [Fits, linesAndTail, hcut] using hb
  refine ⟨shared, [], ?_, fun _ => ?_, fun hf => absurd hfits hf⟩
  · rw [linesWithin, hcut]
    exact executes_nil shared
  · rw [hthis]
    rfl

/-- A connection digests its buffer together with all reads to come.  The
induction is on the work that is left; the stream is what does not change. -/
theorem settle_reads {reads : List Bytes} {later : List Arrival}
    (hu : connection.Undisturbed shared.signal) (hp : connection.phase = .reading)
    (hne : ∀ read ∈ reads, read ≠ [])
    (ha : connection.arrivals = reads.map .data ++ later) :
    Digests connection shared (connection.buffer ++ reads.flatten) later := by
  induction hwork : connection.work using Nat.strongRecOn
    generalizing connection shared reads with
  | ind work ih =>
    cases hl : lineEnd? connection.buffer with
    | some size =>
      by_cases hs : size ≤ connection.maxLine
      · -- a complete line: the stream of the next connection is what follows it
        obtain ⟨middle, next, events, hline, hnext, hsettle, hlt⟩ :=
          settle_line hu.willing hp hl hs
        have hu' : next.Undisturbed middle.signal := by
          rw [hnext, hline.signal]
          exact ⟨hu.willing, hu.unsignalled, hu.deaf⟩
        have hrest := ih next.work (hwork ▸ hlt) hu' (by rw [hnext]) hne
          (by rw [hnext, ← ha]) rfl
        rw [hnext] at hrest
        exact hrest.of_settle rfl hline (hnext ▸ hsettle) (linesWithin_of_lineEnd? hl hs _)
          (fits_of_lineEnd? hl hs _) (by rw [cutLines_of_lineEnd? hl])
      · have hlong : connection.step shared = connection.finishTooLong shared size := by
          simp only [step, hp, hl, if_pos (Nat.not_le.mp hs)]
        exact digests_of_tooLong hlong (tooLong_of_lineEnd? hl (Nat.not_le.mp hs) _)
    | none =>
      by_cases hb : connection.buffer.length ≤ connection.maxLine
      · cases reads with
        | nil =>
          rw [List.flatten_nil, List.append_nil]
          exact digests_tail hp hl hb ha
        | cons read reads =>
          -- no line yet: the read moves bytes of the stream into the buffer
          obtain ⟨hread, hreads⟩ := List.forall_mem_cons.mp hne
          have ha' : connection.arrivals = .data read :: (reads.map .data ++ later) := ha
          obtain ⟨middle, next, events, hnone, hnext, hsettle, hlt⟩ :=
            settle_read hu hp hl hb ha' hread
          have hu' : next.Undisturbed middle.signal := by
            rw [hnext, hnone.signal]
            exact ⟨hu.willing, hu.unsignalled, hu.deaf⟩
          have hrest := ih next.work (hwork ▸ hlt) hu' (by rw [hnext, hp]) hreads
            (by rw [hnext]) rfl
          rw [List.flatten_cons, ← List.append_assoc]
          rw [hnext] at hrest
          exact hrest.of_settle rfl hnone (hnext ▸ hsettle) rfl Iff.rfl rfl
      · have hlong : connection.step shared =
            connection.finishTooLong shared connection.buffer.length := by
          simp only [step, hp, hl, readMore, hu.unsignalled, Bool.false_eq_true, if_false,
            if_pos (Nat.not_le.mp hb)]
        exact digests_of_tooLong hlong (tooLong_of_length hl (Nat.not_le.mp hb) _)

/-! ## The end of the stream -/

/-- What comes behind the last read: a fault, or the end of the stream. -/
def lastArrival : Option IOFault → Arrival
  | some fault => .fault fault
  | none => .streamEnd

/-- The error that ends a connection whose stream was `stream`, and ended with
the given fault or without one. -/
def streamError (maxLine : Nat) (stream : Bytes) (fault? : Option IOFault) :
    ConnectionError :=
  if Fits maxLine stream then
    match fault? with
    | some fault => .io fault
    | none => if (cutLines stream).2 = [] then .clientDisconnected else .unexpectedEof
  else .lineTooLong maxLine

/-- At the end of a stream that fits, the connection ends with the error of the
stream. -/
theorem step_afterReads {stream : Bytes} {later : List Arrival} {fault? : Option IOFault}
    (hu : connection.Undisturbed shared.signal) (hf : Fits connection.maxLine stream) :
    (connection.afterReads stream (lastArrival fault? :: later)).step shared =
      connection.finish shared []
        (.failed (streamError connection.maxLine stream fault?)) := by
  have hl : lineEnd? (cutLines stream).2 = none :=
    lineEnd?_eq_none_iff.mpr (newline_notMem_tail stream)
  have hb : (cutLines stream).2.length ≤ connection.maxLine :=
    hf _ (List.mem_append_right _ List.mem_cons_self)
  unfold streamError
  rw [if_pos hf]
  cases fault? with
  | some fault =>
    simp [afterReads, lastArrival, step, hl, readMore, hu.unsignalled, Nat.not_lt.mpr hb,
      Listener.poll, hu.deaf, read, finish]
  | none =>
    simp [afterReads, lastArrival, step, hl, readMore, hu.unsignalled, Nat.not_lt.mpr hb,
      Listener.poll, hu.deaf, read, finish]

/-- A connection whose client sends `stream`, in any reads, and then ends its
stream or meets a fault.  The lines in front of the first piece over the limit
are executed in order and answered, and the error tells how the stream ended.
Everything on the right is a function of `stream`, so the reads do not
matter. -/
theorem settle_of_stream {stream : Bytes} {reads : List Bytes} {fault? : Option IOFault}
    {later : List Arrival} (hu : connection.Undisturbed shared.signal)
    (hp : connection.phase = .fresh) (hb : connection.buffer = [])
    (hcut : reads.flatten = stream) (hne : ∀ read ∈ reads, read ≠ [])
    (ha : connection.arrivals = reads.map .data ++ lastArrival fault? :: later) :
    (connection.settle shared).events.filterMap Event.line? =
        linesWithin connection.maxLine stream ∧
      (connection.settle shared).events.filterMap Event.reply? =
        (Command.executeLines shared.store (linesWithin connection.maxLine stream)).1 ∧
      (connection.settle shared).events.flatMap Event.output =
        Reply.wires
          (Command.executeLines shared.store (linesWithin connection.maxLine stream)).1 ∧
      (connection.settle shared).shared.store =
        (Command.executeLines shared.store (linesWithin connection.maxLine stream)).2 ∧
      (connection.settle shared).shared.traffic.commands =
        shared.traffic.commands +
          UInt64.ofNat (linesWithin connection.maxLine stream).length ∧
      (connection.settle shared).connection? = none ∧
      (connection.settle shared).events.filterMap Event.outcome? =
        [.failed (streamError connection.maxLine stream fault?)] := by
  let reading : Connection := { connection with phase := .reading }
  have hu' : reading.Undisturbed shared.signal := ⟨hu.willing, hu.unsignalled, hu.deaf⟩
  have hstart : connection.step shared = .goes shared reading [.connected] := by
    simp only [step, hp]
    rfl
  obtain ⟨after, events, hexecutes, hshort, hlong⟩ := settle_reads hu' rfl hne ha
  rw [show reading.buffer = [] from hb, List.nil_append, hcut] at hexecutes hshort hlong
  rw [settle_of_goes hstart]
  by_cases hf : Fits connection.maxLine stream
  · -- all lines are executed, and the tail is in the buffer when the stream ends
    have hend : (reading.afterReads stream (lastArrival fault? :: later)).step after = _ :=
      step_afterReads (hexecutes.signal.symm ▸ hu') hf
    rw [hshort hf, settle_of_ends hend]
    simp [Settled.after, List.filterMap_cons, hexecutes.framed, hexecutes.answered,
      hexecutes.sent, hexecutes.store, hexecutes.commands, hexecutes.unended, Traffic.closed,
      reading]
  · -- the reads behind the piece that is too long do not matter
    obtain ⟨size, hend⟩ := hlong hf
    rw [hend]
    simp [List.filterMap_cons, hexecutes.framed, hexecutes.answered, hexecutes.sent,
      hexecutes.store, hexecutes.commands, hexecutes.unended, Traffic.closed, reading,
      streamError, hf]

/-- Three lines in reads that end within a line, at a newline, and behind one.
The third line is over the limit of seven bytes, so two are executed. -/
theorem settle_of_stream_cut_in_lines :
    let connection : Connection :=
      { client := "127.0.0.1:50000"
        maxLine := 7
        detached := true
        listener := .new
        sink := { Sink.unlimited with perWrite? := some 1 }
        arrivals :=
          [.data (Utf8.ofString "PUT"), .data (Utf8.ofString " k v\nGET k"),
            .data (Utf8.ofString "\nDELETE key\nGET k"), .streamEnd]
        buffer := []
        phase := .fresh }
    let settled := connection.settle ⟨.new, .zero, .new false⟩
    settled.events.flatMap Event.output = Utf8.ofString "OK\nv\n" ∧
      settled.shared.traffic.commands = 2 ∧
      settled.events.filterMap Event.outcome? = [.failed (.lineTooLong 7)] := by
  intro connection settled
  let reads : List Bytes :=
    [Utf8.ofString "PUT", Utf8.ofString " k v\nGET k", Utf8.ofString "\nDELETE key\nGET k"]
  have hu : connection.Undisturbed (.new false) := ⟨⟨by decide, rfl, rfl, rfl⟩, rfl, rfl⟩
  obtain ⟨-, -, hsent, -, hcommands, -, houtcome⟩ :=
    @settle_of_stream connection ⟨.new, .zero, .new false⟩
      (Utf8.ofString "PUT k v\nGET k\nDELETE key\nGET k") reads none [] hu rfl rfl rfl
      (by decide) rfl
  refine ⟨hsent.trans ?_, hcommands.trans ?_, houtcome.trans ?_⟩
  · rfl
  · rfl
  · rfl

end LineStore.Connection
