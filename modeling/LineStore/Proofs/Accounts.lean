import LineStore.Proofs.Bookkeeping
import LineStore.Proofs.GlobalOrder
import LineStore.Proofs.Metering

/-!
# Accounts of the traffic

The traffic counters and the counters of the store are kept apart, and each
moves at another point of a connection's work.  This module says how they fit
together in all states, also when a connection ends within a reply.

* `Command.operations_executeLines`: every line executed is an operation of the
  store or is answered `INVALID INPUT`.
* `Connection.pending_of_step` and `Connection.arrivalBytes_of_step` are what a
  step does to the reply that is being sent and to the bytes that are still to
  arrive.  `Life.delivered` and `Life.received` are the invariants that follow.
* `Connection.sent_of_step` and `Connection.received_of_step` say when a reply is
  sent in full and when bytes are received.
-/

namespace LineStore

/-! ## Executed lines and operations of the store -/

theorem Store.Answer.reply_ne_invalidInput (answer : Store.Answer) :
    answer.reply ≠ .invalidInput := by
  unfold reply
  split <;> exact Reply.noConfusion

namespace Command

/-- A line is one operation of the store, or none if it is no request. -/
theorem operations_executeLine (store : Store) (line : Bytes) :
    (executeLine store line).store.counters.operations +
        (if (executeLine store line).reply = .invalidInput then 1 else 0) =
      store.counters.operations + 1 := by
  unfold executeLine
  cases (ofLine line).map (Command.map Text.Word.bytes) with
  | error error => rfl
  | ok command =>
    have hvalid : (executeRead store (.ok command)).reply ≠ .invalidInput :=
      Store.Answer.reply_ne_invalidInput _
    rw [if_neg hvalid, UInt64.add_zero]
    exact Store.operations_apply store command

theorem operations_executeLines (store : Store) (lines : List Bytes) :
    (executeLines store lines).2.counters.operations +
        UInt64.ofNat ((executeLines store lines).1.count .invalidInput) =
      store.counters.operations + UInt64.ofNat lines.length := by
  induction lines generalizing store with
  | nil => rfl
  | cons line lines ih =>
    have hfirst := operations_executeLine store line
    have hrest := ih (executeLine store line).store
    simp only [executeLines, List.count_cons, List.length_cons, beq_iff_eq, UInt64.ofNat_add]
    split at hfirst
    · rename_i hinvalid
      rw [if_pos hinvalid]
      grind
    · rename_i hvalid
      rw [if_neg hvalid]
      grind

end Command

/-! ## What is being sent -/

namespace Connection

/-- The reply that a connection is sending. -/
@[simp] def Phase.pending? : Phase → Option Reply
  | replying reply _ => some reply
  | _ => none

variable {connection next : Connection} {shared : Shared}

/-- A step makes replies and sends them in full, in the same order. -/
theorem pending_of_step (hn : (connection.step shared).next? connection = some next) :
    connection.phase.pending?.toList ++ (connection.step shared).events.filterMap Event.reply? =
      (connection.step shared).events.filterMap Event.sent? ++ next.phase.pending?.toList := by
  have ht := transition_step connection shared
  generalize connection.step shared = progress at hn ht
  cases ht with
  | answers hp =>
    obtain rfl : _ = next := Option.some.inj hn
    simp [hp, answerLine, List.filterMap_cons, Command.reply_record_executeLine]
  | starts hp | notices hp | sendsPart hp | sends hp =>
    obtain rfl : _ = next := Option.some.inj hn
    simp [hp, List.filterMap_cons]
  | reads hr =>
    obtain rfl : _ = next := Option.some.inj hn
    simp [hr.phase, List.filterMap_cons]
  | idles | stalls =>
    obtain rfl : connection = next := Option.some.inj hn
    simp
  | exceeds | closes | streamEnds | readFails | sendFails =>
    exact absurd hn (by simp [finish, finishTooLong])

/-- The last step of a connection makes no reply, sends none in full, and
receives nothing.  If it is not the sending that fails, there was no reply being
sent. -/
theorem events_of_ended (hn : (connection.step shared).next? connection = none) :
    (connection.step shared).events.filterMap Event.reply? = [] ∧
      (connection.step shared).events.filterMap Event.sent? = [] ∧
      (connection.step shared).events.filterMap Event.received? = [] ∧
      (connection.sendFault? = none → connection.phase.pending? = none) := by
  have ht := transition_step connection shared
  generalize connection.step shared = progress at hn ht
  cases ht with
  | exceeds hp | closes hp => simp [hp, finish, finishTooLong, List.filterMap_cons]
  | streamEnds hr | readFails hr => simp [hr.phase, finish, List.filterMap_cons]
  | sendFails hp hf => simp [hf, finish, List.filterMap_cons]
  | starts | answers | notices | reads | idles | stalls | sendsPart | sends =>
    simp [answerLine] at hn

/-- A reply is sent in full when all that is left of it is written and the flush
behind it does not fail. -/
theorem sent_of_step (connection : Connection) (shared : Shared) :
    ((connection.step shared).events.filterMap Event.sent?).length ≤ 1 ∧
      ∀ reply, reply ∈ (connection.step shared).events.filterMap Event.sent? ↔
        ∃ rest, connection.phase = .replying reply rest ∧
          (connection.sink.push rest.length).stop = .complete ∧
          ∃ sink, (connection.sink.push rest.length).sink.flush = .ok sink := by
  have ht := transition_step connection shared
  refine ⟨?_, fun reply => ⟨?_, ?_⟩⟩
  · generalize connection.step shared = progress at ht
    cases ht <;> simp [finish, finishTooLong, answerLine, List.filterMap_cons]
  · intro hmem
    generalize connection.step shared = progress at hmem ht
    cases ht with
    | @sends other rest sink hp hc hf =>
      obtain rfl : reply = other := by simpa [List.filterMap_cons] using hmem
      exact ⟨rest, hp, hc, sink, hf⟩
    | _ => simp [finish, finishTooLong, answerLine, List.filterMap_cons] at hmem
  · rintro ⟨rest, hp, hc, sink, hf⟩
    simp [step, hp, sendRest, hc, hf]

/-- Bytes are received when the connection reads and the read brings some. -/
theorem received_of_step (connection : Connection) (shared : Shared) :
    ((connection.step shared).events.filterMap Event.received?).length ≤ 1 ∧
      ∀ bytes, bytes ∈ (connection.step shared).events.filterMap Event.received? ↔
        connection.IsReading shared ∧ bytes ≠ [] ∧
          ∃ arrivals, connection.arrivals = .data bytes :: arrivals := by
  have ht := transition_step connection shared
  refine ⟨?_, fun bytes => ⟨?_, ?_⟩⟩
  · generalize connection.step shared = progress at ht
    cases ht <;> simp [finish, finishTooLong, answerLine, List.filterMap_cons]
  · intro hmem
    generalize connection.step shared = progress at hmem ht
    cases ht with
    | @reads read arrivals hr ha hb =>
      obtain rfl : bytes = read := by simpa [List.filterMap_cons] using hmem
      exact ⟨hr, hb, arrivals, ha⟩
    | _ => simp [finish, finishTooLong, answerLine, List.filterMap_cons] at hmem
  · rintro ⟨hr, hb, arrivals, ha⟩
    simp [step, hr.phase, hr.noLine, readMore, hr.unsignalled, Nat.not_lt.mpr hr.short,
      Listener.poll, hr.undisturbed, read, ha, hb]

/-- A step receives the bytes that arrive first. -/
theorem arrivalBytes_of_step (hn : (connection.step shared).next? connection = some next) :
    arrivalBytes connection.arrivals =
      ((connection.step shared).events.filterMap Event.received?).flatten ++
        arrivalBytes next.arrivals := by
  have ht := transition_step connection shared
  generalize connection.step shared = progress at hn ht
  cases ht with
  | reads hr ha =>
    obtain rfl : _ = next := Option.some.inj hn
    simp [ha, arrivalBytes]
  | answers =>
    obtain rfl : _ = next := Option.some.inj hn
    simp [answerLine, List.filterMap_cons]
  | starts | notices | sendsPart | sends | idles | stalls =>
    obtain rfl : _ = next := Option.some.inj hn
    simp [List.filterMap_cons]
  | exceeds | closes | streamEnds | readFails | sendFails =>
    exact absurd hn (by simp [finish, finishTooLong])

variable {start : Connection} {sent : Bytes} {events : List Event}
  {connection? : Option Connection}

/-- All replies but the one being sent are sent in full. -/
theorem Life.delivered (h : Life start sent events connection?) (hp : start.phase = .fresh) :
    ∃ pending? : Option Reply,
      events.filterMap Event.reply? = events.filterMap Event.sent? ++ pending?.toList ∧
        ∀ connection, connection? = some connection → connection.phase.pending? = pending? := by
  induction h with
  | opens => exact ⟨none, rfl, fun _ hsome => Option.some.inj hsome ▸ hp ▸ rfl⟩
  | @advances _ events connection shared _ ih =>
    obtain ⟨pending?, hreplies, hpending⟩ := ih
    rw [← hpending connection rfl] at hreplies
    simp only [List.filterMap_append, hreplies]
    cases hn : (connection.step shared).next? connection with
    | none =>
      obtain ⟨hreply, hsent, -⟩ := events_of_ended hn
      exact ⟨connection.phase.pending?, by rw [hreply, hsent, List.append_nil, List.append_nil],
        by simp⟩
    | some next =>
      refine ⟨next.phase.pending?, ?_, fun _ hsome => Option.some.inj hsome ▸ rfl⟩
      rw [List.append_assoc, pending_of_step hn, List.append_assoc]
  | @arrives _ _ connection _ _ ih | @allows _ _ connection _ _ ih =>
    obtain ⟨pending?, hreplies, hpending⟩ := ih
    exact ⟨pending?, hreplies, fun _ hsome => Option.some.inj hsome ▸ hpending connection rfl⟩
  | drops _ ih | misses _ _ ih =>
    obtain ⟨pending?, hreplies, -⟩ := ih
    exact ⟨pending?, hreplies, by simp⟩

/-- What was received of a client is the first of what it sent.  As long as the
connection is there, the other bytes are still to arrive. -/
theorem Life.received (h : Life start sent events connection?) (ha : start.arrivals = []) :
    (events.filterMap Event.received?).flatten <+: sent ∧
      ∀ connection, connection? = some connection →
        (events.filterMap Event.received?).flatten ++ arrivalBytes connection.arrivals =
          sent := by
  induction h with
  | opens =>
    refine ⟨List.nil_prefix, ?_⟩
    rintro connection hsome
    obtain rfl := Option.some.inj hsome
    simp [ha, arrivalBytes]
  | @advances _ _ connection shared _ ih =>
    obtain ⟨hfront, hpending⟩ := ih
    cases hn : (connection.step shared).next? connection with
    | none =>
      obtain ⟨-, -, hnone, -⟩ := events_of_ended hn
      rw [List.filterMap_append, hnone, List.append_nil]
      exact ⟨hfront, by simp⟩
    | some next =>
      have hsent := hpending connection rfl
      rw [arrivalBytes_of_step hn, ← List.append_assoc, ← List.flatten_append,
        ← List.filterMap_append] at hsent
      exact ⟨⟨_, hsent⟩, fun _ hsome => Option.some.inj hsome ▸ hsent⟩
  | @arrives _ _ connection arrivals _ ih =>
    have hsent := ih.2 connection rfl
    refine ⟨ih.1.trans (List.prefix_append _ _), ?_⟩
    rintro next hsome
    obtain rfl := Option.some.inj hsome
    rw [arrivalBytes_append, ← List.append_assoc, hsent]
  | @allows _ _ connection _ _ ih =>
    exact ⟨ih.1, fun _ hsome => Option.some.inj hsome ▸ ih.2 connection rfl⟩
  | drops _ ih => exact ⟨ih.1, by simp⟩
  | misses _ _ ih => exact ⟨ih.1.trans (List.prefix_append _ _), by simp⟩

end Connection

/-! ## Accounts of a schedule -/

namespace Hub

open Connection

/-- The bytes that the reads of all connections brought, read by read. -/
def receivedOf (occurrences : List Occurrence) : List (Nat × Bytes) :=
  gather Event.received? occurrences

/-- The replies that were sent in full. -/
def deliveredOf (occurrences : List Occurrence) : List (Nat × Reply) :=
  gather Event.sent? occurrences

theorem map_snd_gather {α : Type} (read : Event → Option α) (occurrences : List Occurrence) :
    (gather read occurrences).map Prod.snd =
      (occurrences.map Occurrence.event).filterMap read := by
  unfold gather
  rw [List.map_filterMap, List.filterMap_map]
  refine List.filterMap_congr fun occurrence _ => ?_
  show ((read occurrence.event).map _).map Prod.snd = read occurrence.event
  cases read occurrence.event <;> rfl

/-- From an empty store on, the lines answered are the operations of the store
and the lines that were answered `INVALID INPUT`. -/
theorem commands_of_play (place : Bytes → Fin Store.shardCount) (signal : Signal)
    (moves : List Move) :
    let hub := ((Hub.new (.empty place) signal).play moves).1
    let occurrences := ((Hub.new (.empty place) signal).play moves).2
    hub.shared.traffic.commands =
      hub.shared.store.counters.operations +
        UInt64.ofNat (((repliesOf occurrences).map Prod.snd).count .invalidInput) := by
  intro hub occurrences
  have htraffic : hub.shared.traffic = Traffic.zero.after _ _ :=
    traffic_of_play (Hub.new (.empty place) signal) moves
  obtain ⟨hlines, -⟩ := executeLines_of_play (Hub.new (.empty place) signal) moves
  -- the counters of the store and of the traffic both count the executed lines
  have hoperations := Command.operations_executeLines (.empty place)
    ((linesOf occurrences).map Prod.snd)
  have hlength := Command.length_executeLines (.empty place)
    ((linesOf occurrences).map Prod.snd)
  rw [show Command.executeLines (.empty place) _ = _ from hlines] at hoperations hlength
  have hempty : (Store.empty place).counters.operations = 0 := rfl
  rw [hempty, ← hlength, repliesOf, map_snd_gather] at hoperations
  rw [htraffic, repliesOf, map_snd_gather]
  exact hoperations.symm

variable {during first rest : List Move}

/-- Of the replies to a new connection, those sent in full are the first, and
the one being sent is the only other one. -/
theorem delivered_of_play (hub : Hub) (id : Nat) (setup : Setup)
    (hc : ∀ move ∈ during, move.connects id = false) :
    let now := ((hub.apply (.connect id setup)).play during).1
    let since := ((hub.apply (.connect id setup)).play during).2
    ∃ pending? : Option Reply,
      restrict id (repliesOf since) = restrict id (deliveredOf since) ++ pending?.toList ∧
        ∀ connection, now.live.lookup id = some connection →
          connection.phase.pending? = pending? := by
  intro now since
  rw [repliesOf, deliveredOf, restrict_gather, restrict_gather]
  exact (life_of_play hub id setup hc).delivered rfl

/-- A connection that ends, but not because sending fails, has sent all its
replies in full. -/
theorem delivered_of_ended (hub : Hub) (id : Nat) (setup : Setup) {connection : Connection}
    (hc : ∀ move ∈ first ++ .advance id :: rest, move.connects id = false)
    (hl : ((hub.apply (.connect id setup)).play first).1.live.lookup id = some connection)
    (hf : connection.sendFault? = none)
    (hgone : id ∉ ids (((hub.apply (.connect id setup)).play first).1.advance id).1.live) :
    let since := ((hub.apply (.connect id setup)).play (first ++ .advance id :: rest)).2
    restrict id (repliesOf since) = restrict id (deliveredOf since) := by
  obtain ⟨hfirst, hlater⟩ := List.forall_mem_append.mp hc
  obtain ⟨-, hrest⟩ := List.forall_mem_cons.mp hlater
  obtain ⟨pending?, hreplies, hpending⟩ := (life_of_play hub id setup hfirst).delivered rfl
  have hended := hgone
  rw [← lookup_eq_none_iff, lookup_advance, if_pos rfl, hl, Option.bind_some] at hended
  obtain ⟨hreply, hsent, -, hnone⟩ := events_of_ended hended
  obtain rfl : pending? = none := (hpending connection hl).symm.trans (hnone hf)
  have hlast := eventsOf_advance ((hub.apply (.connect id setup)).play first).1 id id
  rw [if_pos rfl, hl] at hlast
  intro since
  have hevents : eventsOf id since =
      eventsOf id ((hub.apply (.connect id setup)).play first).2 ++
        eventsOf id (((hub.apply (.connect id setup)).play first).1.advance id).2 :=
    eventsOf_play_of_gone hgone hrest
  rw [repliesOf, deliveredOf, restrict_gather, restrict_gather, hevents, hlast]
  simp only [List.filterMap_append, hreplies, hreply, hsent, Option.toList_none, List.append_nil]

/-! ## The main result -/

/-- The counters of the traffic are exact.

Every run of a script is one of the schedules, and a step of a connection
receives bytes when it reads and the read brings some, and sends a reply in full
when all of it is written and flushed.  The following holds in all states of
every schedule over a store that was empty at first.

* The lines answered are the operations of the store and the lines that were
  answered `INVALID INPUT`.  The bytes read are those that the reads brought,
  and the bytes written those of the replies sent in full.
* As long as no other client takes its number, what a connection has received is
  the first of what was sent to it, and the replies sent in full are the first
  of those made.  There is one line at most that is executed and whose reply is
  not sent in full.
* While the connection is live, all that was sent to it is received or still to
  arrive, and the reply not sent in full is the one being sent.  There is none
  when it looks for the next line or reads, and none when it has ended and it was
  not the sending that failed. -/
theorem traffic_accounted (place : Bytes → Fin Store.shardCount) (signal : Signal) :
    let start := Hub.new (.empty place) signal
    (∀ script : List Stimulus, ∃ moves : List Move,
      moves.filterMap Move.stimulus? = script ∧
        start.play moves = ((start.run script).1, (start.run script).2.flatten)) ∧
      (∀ (connection : Connection) (shared : Shared),
        let events := (connection.step shared).events
        ((events.filterMap Event.received?).length ≤ 1 ∧
          ∀ bytes, bytes ∈ events.filterMap Event.received? ↔
            connection.IsReading shared ∧ bytes ≠ [] ∧
              ∃ arrivals, connection.arrivals = .data bytes :: arrivals) ∧
          (events.filterMap Event.sent?).length ≤ 1 ∧
            ∀ reply, reply ∈ events.filterMap Event.sent? ↔
              ∃ rest, connection.phase = .replying reply rest ∧
                (connection.sink.push rest.length).stop = .complete ∧
                ∃ sink, (connection.sink.push rest.length).sink.flush = .ok sink) ∧
      ∀ moves : List Move,
        let hub := (start.play moves).1
        let occurrences := (start.play moves).2
        let counters := hub.shared.store.counters
        (hub.shared.traffic.commands =
            counters.gets + counters.puts + counters.refused + counters.deletes +
              UInt64.ofNat (((repliesOf occurrences).map Prod.snd).count .invalidInput) ∧
          hub.shared.traffic.bytesRead =
            UInt64.ofNat ((receivedOf occurrences).map Prod.snd).flatten.length ∧
          hub.shared.traffic.bytesWritten =
            UInt64.ofNat (Reply.wires ((deliveredOf occurrences).map Prod.snd)).length) ∧
          ∀ (before during : List Move) (id : Nat) (setup : Setup),
            moves = before ++ .stimulus (.connect id setup) :: during →
            (∀ move ∈ during, move.connects id = false) →
            let opened := (start.play before).1.apply (.connect id setup)
            let since := (opened.play during).2
            let received := (restrict id (receivedOf since)).flatten
            let lines := restrict id (linesOf since)
            let replies := restrict id (repliesOf since)
            let delivered := restrict id (deliveredOf since)
            received <+: sentTo id during ∧
              (delivered <+: replies ∧ delivered.length ≤ lines.length ∧
                lines.length ≤ delivered.length + 1) ∧
              (∀ connection, hub.live.lookup id = some connection →
                received ++ arrivalBytes connection.arrivals = sentTo id during ∧
                  replies = delivered ++ connection.phase.pending?.toList ∧
                  (connection.phase = .reading → lines.length = delivered.length)) ∧
              ∀ (first rest : List Move) (connection : Connection),
                during = first ++ .advance id :: rest →
                (opened.play first).1.live.lookup id = some connection →
                connection.sendFault? = none →
                id ∉ ids ((opened.play first).1.advance id).1.live →
                lines.length = delivered.length := by
  intro start
  refine ⟨fun script => run_eq_play (ordered_new (.empty place) signal) script,
    fun connection shared => ⟨received_of_step connection shared, sent_of_step connection shared⟩,
    ?_⟩
  intro moves hub occurrences counters
  have htraffic : hub.shared.traffic = Traffic.zero.after _ _ := traffic_of_play start moves
  refine ⟨⟨commands_of_play place signal moves, ?_, ?_⟩, ?_⟩
  · rw [htraffic, receivedOf, map_snd_gather]
    exact UInt64.zero_add _
  · rw [htraffic, deliveredOf, map_snd_gather]
    exact UInt64.zero_add _
  · rintro before during id setup rfl hc opened since received lines replies delivered
    have hlast : (opened.play during).1 = hub :=
      (congrArg Prod.fst (play_append_stimulus start before during _)).symm
    have hlife := life_of_play (start.play before).1 id setup hc
    have hlines : lines.length = replies.length := by
      simpa only [lines, replies, linesOf, repliesOf, restrict_gather] using hlife.length_lines
    obtain ⟨pending?, hreplies, hpending⟩ := delivered_of_play (start.play before).1 id setup hc
    have hsplit : replies = delivered ++ pending?.toList := hreplies
    have hlength : replies.length = delivered.length + pending?.toList.length := by
      rw [hsplit, List.length_append]
    obtain ⟨hfront, harrives⟩ := hlife.received rfl
    rw [← restrict_gather] at hfront harrives
    refine ⟨hfront, ⟨hsplit ▸ List.prefix_append _ _, by omega, ?_⟩, ?_, ?_⟩
    · have hone : pending?.toList.length ≤ 1 := by cases pending? <;> simp
      omega
    · intro connection hl
      obtain rfl := hpending connection (hlast ▸ hl)
      refine ⟨harrives connection (hlast ▸ hl), hsplit, ?_⟩
      intro hp
      rw [hp] at hlength
      exact hlines.trans hlength
    · rintro first rest connection rfl hl hf hgone
      have hsent := delivered_of_ended (start.play before).1 id setup hc hl hf hgone
      exact hlines.trans (congrArg List.length hsent)

/-- A connection whose second flush fails, one that is aborted within a reply, and
one that sends a line that is no request, a value that is refused, and a part of
a line. -/
theorem traffic_accounted_partial_line :
    let setup : Setup := ⟨"127.0.0.1:50000", 32, true, true, .unlimited⟩
    let fault : IOFault := ⟨.brokenPipe, "broken pipe"⟩
    let broken : Setup :=
      { setup with sink := { Sink.unlimited with flushFault? := some fault, flushes := 1 } }
    let stuck : Setup := { setup with sink := { Sink.unlimited with allowance? := some 0 } }
    let before : List Move :=
      [.stimulus (.connect 2 broken), .advance 2,
        .stimulus (.send 2 (Utf8.ofString "PUT a 1\nGET a\n")), .advance 2, .advance 2, .advance 2,
        .advance 2, .advance 2,
        .stimulus (.connect 3 stuck), .advance 3, .stimulus (.send 3 (Utf8.ofString "GET a\n")),
        .advance 3, .advance 3, .stimulus (.abort 3)]
    let first : List Move :=
      [.advance 1, .stimulus (.send 1 (Utf8.ofString "HELLO\nPUT b __TOMBSTONE__\nDEL")),
        .advance 1, .advance 1, .advance 1, .advance 1, .advance 1, .stimulus (.streamEnd 1)]
    let during : List Move := first ++ .advance 1 :: [.advance 1]
    let moves := before ++ .stimulus (.connect 1 setup) :: during
    let hub := ((Hub.new (.empty Store.spread) (.new false)).play moves).1
    let opened := ((Hub.new (.empty Store.spread) (.new false)).play before).1.apply
      (.connect 1 setup)
    let since := (opened.play during).2
    hub.shared.traffic.commands = 2 + 1 + 1 + 0 + 1 ∧ hub.shared.traffic.bytesRead = 49 ∧
      hub.shared.traffic.bytesWritten = 48 ∧
      (restrict 1 (linesOf since)).length = (restrict 1 (deliveredOf since)).length := by
  intro setup fault broken stuck before first during moves hub opened since
  obtain ⟨-, -, hplay⟩ := traffic_accounted Store.spread (.new false)
  obtain ⟨⟨hcommands, hread, hwritten⟩, hlives⟩ := hplay moves
  have hc : ∀ move ∈ during, move.connects 1 = false := by decide
  obtain ⟨-, -, -, hended⟩ := hlives before during 1 setup rfl hc
  have hopen : (((((Hub.new (.empty Store.spread) (.new false)).play before).1.apply
      (.connect 1 setup)).play first).1.live.lookup 1).map sendFault? = some none := by
    decide +kernel
  obtain ⟨connection, hl, hf⟩ := Option.map_eq_some_iff.mp hopen
  refine ⟨?_, ?_, ?_, ?_⟩
  · rw [hcommands]
    decide +kernel
  · rw [hread]
    decide +kernel
  · rw [hwritten]
    decide +kernel
  · exact hended first [.advance 1] connection rfl hl hf (by decide +kernel)

end Hub

end LineStore
