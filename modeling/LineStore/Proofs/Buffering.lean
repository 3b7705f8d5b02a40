import LineStore.Proofs.Accounts

/-!
# What a connection buffers

A connection appends what it reads to its buffer, takes the lines off the front,
and reads again only when no line is left there.

* `Connection.Reads` says that a connection may read now, and `reads_iff` says in
  which states that is so.
* `buffer_of_step` and `length_buffer_of_step` are what one step does to the
  buffer.
* `Reassembled` is the invariant of lives.  The lines taken and the buffer are
  what was received, and the buffer is over the limit by no more than the last
  read.  `Life.reassembled` carries it along.
* `Life.unread_of_not_fits`: after a piece over the limit nothing is read.
-/

namespace LineStore

namespace Connection

open Bytes

variable {connection next start : Connection} {shared : Shared} {sent : Bytes}
  {events : List Event} {connection? : Option Connection}

/-! ## When a connection reads -/

/-- Tells whether a connection may read now, which means that there is a state of
what it shares in which its next step depends on what has arrived. -/
def Reads (connection : Connection) : Prop :=
  ∃ (shared : Shared) (arrivals others : List Arrival),
    ({ connection with arrivals }.step shared).events ≠
      ({ connection with arrivals := others }.step shared).events

theorem events_of_not_isReading (h : ¬ connection.IsReading shared) (arrivals : List Arrival) :
    ({ connection with arrivals }.step shared).events = (connection.step shared).events := by
  cases hp : connection.phase with
  | fresh => simp [step, hp]
  | replying reply rest =>
    simp only [step, hp, sendRest]
    split
    · split <;> rfl
    · rfl
    · split <;> rfl
  | reading =>
    cases hl : lineEnd? connection.buffer with
    | some size =>
      simp only [step, hp, hl]
      split <;> rfl
    | none =>
      simp only [step, hp, hl, readMore]
      split
      · rfl
      · rename_i hs
        split
        · rfl
        · rename_i hb
          have hhears : connection.listener.hears shared.signal = true := by
            by_contra hdeaf
            exact h ⟨hp, hl, Nat.not_lt.mp hb, by simpa using hs, by simpa using hdeaf⟩
          simp [Listener.poll, hhears]

theorem reads_iff_exists :
    connection.Reads ↔ ∃ shared, connection.IsReading shared := by
  constructor
  · rintro ⟨shared, arrivals, others, hne⟩
    refine ⟨shared, ?_⟩
    by_contra hnot
    exact hne ((events_of_not_isReading hnot arrivals).trans
      (events_of_not_isReading hnot others).symm)
  · rintro ⟨shared, hr⟩
    refine ⟨shared, [], [.data [newline]], ?_⟩
    simp [step, hr.phase, hr.noLine, readMore, hr.unsignalled, Nat.not_lt.mpr hr.short,
      Listener.poll, hr.undisturbed, read]

/-- A connection reads when no line is left in its buffer, the buffer is within the
limit and no signal has told it to close, and in no other state. -/
theorem reads_iff :
    connection.Reads ↔
      connection.phase = .reading ∧ newline ∉ connection.buffer ∧
        connection.buffer.length ≤ connection.maxLine ∧
        connection.listener.signalled = false := by
  rw [reads_iff_exists]
  constructor
  · rintro ⟨shared, hr⟩
    exact ⟨hr.phase, lineEnd?_eq_none_iff.mp hr.noLine, hr.short, hr.unsignalled⟩
  · rintro ⟨hphase, hnone, hshort, hunsignalled⟩
    have hquiet : connection.listener.hears (.new false) = false := Bool.and_false _
    exact ⟨⟨.new, .zero, .new false⟩, hphase, lineEnd?_eq_none_iff.mpr hnone, hshort,
      hunsignalled, hquiet⟩

/-! ## What a step does to the buffer -/

/-- The bytes that the reads among the given events brought. -/
def receivedBytes (events : List Event) : Bytes :=
  (events.filterMap Event.received?).flatten

/-- The bytes that the last of these reads brought. -/
def lastRead (events : List Event) : Bytes :=
  (events.filterMap Event.received?).getLast?.getD []

theorem receivedBytes_append (events more : List Event) :
    receivedBytes (events ++ more) = receivedBytes events ++ receivedBytes more := by
  simp [receivedBytes]

theorem lastRead_append {more : List Event} (h : more.filterMap Event.received? = [])
    (events : List Event) : lastRead (events ++ more) = lastRead events := by
  simp [lastRead, h]

theorem buffer_of_step (hn : (connection.step shared).next? connection = some next) :
    connection.buffer ++ receivedBytes (connection.step shared).events =
      endLines ((connection.step shared).events.filterMap Event.line?) ++ next.buffer := by
  have hpending := pendingBytes_of_step hn
  rw [pendingBytes, pendingBytes, arrivalBytes_of_step hn, ← List.append_assoc,
    ← List.append_assoc] at hpending
  exact List.append_cancel_right hpending

theorem length_buffer_of_step (hn : (connection.step shared).next? connection = some next)
    (events : List Event)
    (h : connection.buffer.length ≤ connection.maxLine + (lastRead events).length) :
    next.buffer.length ≤
      connection.maxLine + (lastRead (events ++ (connection.step shared).events)).length := by
  have ht := transition_step connection shared
  generalize connection.step shared = progress at hn ht
  cases ht with
  | @reads bytes arrivals hr ha hb =>
    obtain rfl : _ = next := Option.some.inj hn
    have hshort := hr.short
    simp only [Progress.events, lastRead, List.filterMap_append, List.filterMap_cons,
      Event.received?, List.filterMap_nil, List.getLast?_concat, Option.getD_some,
      List.length_append]
    omega
  | answers =>
    obtain rfl : _ = next := Option.some.inj hn
    rw [lastRead_append (by simp [answerLine, List.filterMap_cons])]
    simp only [List.length_drop]
    omega
  | starts | notices | sendsPart | sends | idles | stalls =>
    obtain rfl : _ = next := Option.some.inj hn
    rwa [lastRead_append (by simp [List.filterMap_cons])]
  | exceeds | closes | streamEnds | readFails | sendFails =>
    exact absurd hn (by simp [finish, finishTooLong])

/-! ## The whole life of a connection -/

/-- What a connection holds in its buffer is what it has received and not taken
as lines, and at most one read more than the limit. -/
structure Holds (maxLine : Nat) (events : List Event) (connection : Connection) : Prop where
  limit : connection.maxLine = maxLine
  whole : endLines (events.filterMap Event.line?) ++ connection.buffer = receivedBytes events
  bounded : connection.buffer.length ≤ maxLine + (lastRead events).length

/-- The lines taken are, with their newlines, the first bytes received, and none
of them is over the limit.  As long as the connection is there, it holds the
other bytes. -/
structure Reassembled (maxLine : Nat) (events : List Event) (connection? : Option Connection) :
    Prop where
  within : ∀ line ∈ events.filterMap Event.line?, newline ∉ line ∧ line.length ≤ maxLine
  front : endLines (events.filterMap Event.line?) <+: receivedBytes events
  holds : ∀ connection, connection? = some connection → Holds maxLine events connection

variable {maxLine : Nat}

theorem reassembled_some
    (hw : ∀ line ∈ events.filterMap Event.line?, newline ∉ line ∧ line.length ≤ maxLine)
    (h : Holds maxLine events connection) : Reassembled maxLine events (some connection) where
  within := hw
  front := ⟨_, h.whole⟩
  holds _ hsome := Option.some.inj hsome ▸ h

theorem Holds.step (h : Holds maxLine events connection)
    (hn : (connection.step shared).next? connection = some next) :
    Holds maxLine (events ++ (connection.step shared).events) next where
  limit := (setup_of_step hn).2.1.trans h.limit
  whole := by
    rw [List.filterMap_append, endLines_append, List.append_assoc, ← buffer_of_step hn,
      ← List.append_assoc, h.whole, receivedBytes_append]
  bounded := by
    have hb := h.bounded
    rw [← h.limit] at hb ⊢
    exact length_buffer_of_step hn events hb

theorem Reassembled.step (h : Reassembled maxLine events (some connection)) (shared : Shared) :
    Reassembled maxLine (events ++ (connection.step shared).events)
      ((connection.step shared).next? connection) := by
  have hholds := h.holds connection rfl
  cases hn : (connection.step shared).next? connection with
  | none =>
    -- the last step of a connection takes no line
    refine ⟨?_, ?_, by simp⟩
    · rw [List.filterMap_append, lines_of_ended hn, List.append_nil]
      exact h.within
    · rw [List.filterMap_append, lines_of_ended hn, List.append_nil, receivedBytes_append]
      exact h.front.trans (List.prefix_append _ _)
  | some next =>
    refine reassembled_some ?_ (hholds.step hn)
    intro line hline
    rw [List.filterMap_append] at hline
    rcases List.mem_append.mp hline with hold | hnew
    · exact h.within line hold
    · exact hholds.limit ▸ line_of_step hnew

/-- No byte received is lost or repeated, and no line is longer than the
limit. -/
theorem Life.reassembled (h : Life start sent events connection?) (hb : start.buffer = []) :
    Reassembled start.maxLine events connection? := by
  induction h with
  | opens => exact reassembled_some (by simp) ⟨rfl, by simp [hb, receivedBytes], by simp [hb]⟩
  | advances shared _ ih => exact ih.step shared
  | @arrives _ _ connection _ _ ih | @allows _ _ connection _ _ ih =>
    obtain ⟨hlimit, hwhole, hbounded⟩ := ih.holds connection rfl
    exact reassembled_some ih.within ⟨hlimit, hwhole, hbounded⟩
  | drops _ ih | misses _ _ ih => exact ⟨ih.within, ih.front, by simp⟩

/-- Where a connection reads, all that it has received is within the limit. -/
theorem Reassembled.fits_of_reads (h : Reassembled maxLine events (some connection))
    (hr : connection.Reads) : Fits maxLine (receivedBytes events) := by
  obtain ⟨-, hnone, hshort, -⟩ := reads_iff.mp hr
  obtain ⟨hlimit, hwhole, -⟩ := h.holds connection rfl
  rw [hlimit] at hshort
  rw [← hwhole, fits_endLines fun line hline => (h.within line hline).1, fits_of_notMem hnone]
  exact ⟨fun line hline => (h.within line hline).2, hshort⟩

theorem received_eq_nil_of_not_reads (h : ¬ connection.Reads) (shared : Shared) :
    (connection.step shared).events.filterMap Event.received? = [] := by
  rw [List.eq_nil_iff_forall_not_mem]
  intro bytes hmem
  obtain ⟨hreading, -⟩ := ((received_of_step connection shared).2 bytes).mp hmem
  exact h (reads_iff_exists.mpr ⟨shared, hreading⟩)

/-- After a piece that is over the limit nothing is read any more. -/
theorem Life.unread_of_not_fits {more : Bytes} {later : List Event} {next? : Option Connection}
    (h : Life start sent events (some connection)) (hb : start.buffer = [])
    (hf : ¬ Fits start.maxLine (receivedBytes events)) (hmore : Life connection more later next?) :
    later.filterMap Event.received? = [] ∧ ∀ next, next? = some next → ¬ next.Reads := by
  have hlong : ∀ {more : Bytes} {later : List Event} {next : Connection},
      Life connection more later (some next) → ¬ next.Reads := by
    intro more later next hlater hr
    have hfits := ((h.trans hlater).reassembled hb).fits_of_reads hr
    rw [receivedBytes_append] at hfits
    exact hf hfits.of_append
  refine ⟨?_, ?_⟩
  · induction hmore with
    | opens => rfl
    | advances shared hnow ih =>
      rw [List.filterMap_append, ih, received_eq_nil_of_not_reads (hlong hnow), List.append_nil]
    | arrives _ _ ih | allows _ _ ih | drops _ ih | misses _ _ ih => exact ih
  · rintro next rfl
    exact hlong hmore

/-! ## The main result -/

/-- Whatever a client sends, and in whatever reads it comes, its connection puts
the lines together and holds little more than one of them.

* The lives are what becomes of a new connection in any schedule of the hub.
* No line that is taken contains a newline or is longer than the limit.  With
  their newlines, the lines are the first bytes received, and these are the first
  bytes sent.
* As long as the connection is there, the lines with their newlines and the buffer
  are all that was received, and the rest of what was sent has not been read.  The
  buffer is over the limit by no more than the last read.
* The connection reads, between its replies and before the signal, if and only if
  there is no newline in the buffer and the buffer is within the limit.
* Once a piece of what was received, be it a line or not, is over the limit,
  nothing is received any more, and at no later time does the connection read. -/
theorem reassembles_within_limit (setup : Hub.Setup) :
    (∀ (hub : Hub) (id : Nat) (moves : List Hub.Move),
      (∀ move ∈ moves, move.connects id = false) →
        Life setup.connection (Hub.sentTo id moves)
          (Hub.eventsOf id ((hub.apply (.connect id setup)).play moves).2)
          (((hub.apply (.connect id setup)).play moves).1.live.lookup id)) ∧
      ∀ (sent : Bytes) (events : List Event) (connection? : Option Connection),
        Life setup.connection sent events connection? →
        let lines := events.filterMap Event.line?
        let received := receivedBytes events
        (∀ line ∈ lines, newline ∉ line ∧ line.length ≤ setup.maxLine) ∧
          (endLines lines <+: received ∧ received <+: sent) ∧
          ∀ connection, connection? = some connection →
            endLines lines ++ connection.buffer = received ∧
              received ++ arrivalBytes connection.arrivals = sent ∧
              connection.buffer.length ≤ setup.maxLine + (lastRead events).length ∧
              (connection.Reads ↔
                connection.phase = .reading ∧ newline ∉ connection.buffer ∧
                  connection.buffer.length ≤ setup.maxLine ∧
                  connection.listener.signalled = false) ∧
              (¬ Fits setup.maxLine received →
                ∀ (more : Bytes) (later : List Event) (next? : Option Connection),
                  Life connection more later next? →
                    later.filterMap Event.received? = [] ∧
                      ∀ next, next? = some next → ¬ next.Reads) := by
  refine ⟨fun hub id moves hc => Hub.life_of_play hub id setup hc, ?_⟩
  intro sent events connection? h lines received
  have hassembled : Reassembled setup.maxLine events connection? := h.reassembled rfl
  obtain ⟨hsent, harrivals⟩ := h.received rfl
  refine ⟨hassembled.within, ⟨hassembled.front, hsent⟩, ?_⟩
  rintro connection rfl
  obtain ⟨hlimit, hwhole, hbounded⟩ := hassembled.holds connection rfl
  refine ⟨hwhole, harrivals connection rfl, hbounded, ?_, ?_⟩
  · rw [← hlimit]
    exact reads_iff
  · intro hf more later next? hmore
    exact h.unread_of_not_fits rfl hf hmore

/-- A line of five bytes, which is the limit, comes in two reads, and six bytes of
the next line with the second of them.  The connection reads after the first
read.  After the second it answers the line and reads no more. -/
theorem reassembles_within_limit_long_tail :
    let setup : Hub.Setup := ⟨"127.0.0.1:50000", 5, true, true, .unlimited⟩
    let opened := (Hub.new .new (.new false)).apply (.connect 1 setup)
    let first : List Hub.Move :=
      [.advance 1, .stimulus (.send 1 (Utf8.ofString "GET")), .advance 1]
    let moves : List Hub.Move :=
      first ++ [.stimulus (.send 1 (Utf8.ofString " k\nDELETE")), .advance 1, .advance 1,
        .advance 1]
    (∃ connection, (opened.play first).1.live.lookup 1 = some connection ∧ connection.Reads ∧
        newline ∉ connection.buffer ∧ connection.buffer.length ≤ 5) ∧
      ∃ connection, (opened.play moves).1.live.lookup 1 = some connection ∧
        endLines [Utf8.ofString "GET k"] ++ connection.buffer =
          Utf8.ofString "GET k\nDELETE" ∧
        connection.buffer.length ≤ 5 + 9 ∧
        ∀ (more : Bytes) (later : List Event) (next? : Option Connection),
          Life connection more later next? →
            later.filterMap Event.received? = [] ∧
              ∀ next, next? = some next → ¬ next.Reads := by
  intro setup opened first moves
  obtain ⟨hlife, hresult⟩ := reassembles_within_limit setup
  refine ⟨?_, ?_⟩
  · have hstate : ((opened.play first).1.live.lookup 1).map (fun connection =>
        (connection.phase, lineEnd? connection.buffer, connection.buffer.length,
          connection.listener.signalled)) = some (.reading, none, 3, false) := by decide +kernel
    obtain ⟨connection, hl, hfields⟩ := Option.map_eq_some_iff.mp hstate
    simp only [Prod.mk.injEq] at hfields
    obtain ⟨hphase, hline, hlength, hunsignalled⟩ := hfields
    have hnone : newline ∉ connection.buffer := lineEnd?_eq_none_iff.mp hline
    have hshort : connection.buffer.length ≤ 5 := by omega
    obtain ⟨-, -, hheld⟩ := hresult _ _ _ (hlife (Hub.new .new (.new false)) 1 first (by decide))
    obtain ⟨-, -, -, hreads, -⟩ := hheld connection hl
    exact ⟨connection, hl, hreads.mpr ⟨hphase, hnone, hshort, hunsignalled⟩, hnone, hshort⟩
  · have hopen : ((opened.play moves).1.live.lookup 1).isSome := by decide +kernel
    obtain ⟨connection, hl⟩ := Option.isSome_iff_exists.mp hopen
    obtain ⟨-, -, hheld⟩ := hresult _ _ _ (hlife (Hub.new .new (.new false)) 1 moves (by decide))
    obtain ⟨hwhole, -, hbounded, -, hunread⟩ := hheld connection hl
    have hlines : (Hub.eventsOf 1 (opened.play moves).2).filterMap Event.line? =
        [Utf8.ofString "GET k"] := by decide +kernel
    have hreceived : receivedBytes (Hub.eventsOf 1 (opened.play moves).2) =
        Utf8.ofString "GET k\nDELETE" := by decide +kernel
    have hlast : (lastRead (Hub.eventsOf 1 (opened.play moves).2)).length = 9 := by
      decide +kernel
    rw [hlines, hreceived] at hwhole
    rw [hlast] at hbounded
    rw [hreceived] at hunread
    exact ⟨connection, hl, hwhole, hbounded, hunread (by decide +kernel)⟩

end Connection

end LineStore
