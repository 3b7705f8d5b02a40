import LineStore.Proofs.Lives
import LineStore.Proofs.Reading

/-!
# One request at a time

When all connections wait for their clients, a request line that comes for one
of them is executed and answered at once, and then all connections wait again.

* `Connection.Idle` is a connection that waits for its client.
* `Idle.settle_line` is one line sent to it, in whatever pieces it arrives.
* `Hub.Quiet` is a hub of such connections.  `Quiet.step_deliver`,
  `Quiet.step_send` and `Quiet.step_connect` are what happens to it.
-/

namespace LineStore

namespace Bytes

theorem flatten_pieces {size : Nat} (h : size ≠ 0) (bytes : Bytes) :
    (pieces size bytes).flatten = bytes := by
  fun_induction pieces size bytes with
  | case1 bytes hstop =>
    rcases hstop with hz | hnil
    · exact absurd hz h
    · exact hnil.symm
  | case2 bytes _ ih => rw [List.flatten_cons, ih, List.take_append_drop]

theorem ne_nil_of_mem_pieces {size : Nat} {bytes piece : Bytes}
    (h : piece ∈ pieces size bytes) : piece ≠ [] := by
  fun_induction pieces size bytes with
  | case1 => exact absurd h List.not_mem_nil
  | case2 bytes hgo ih =>
    obtain ⟨hsize, hbytes⟩ := not_or.mp hgo
    rcases List.mem_cons.mp h with rfl | hmem
    · intro htake
      rcases List.take_eq_nil_iff.mp htake with hzero | hnil
      · exact hsize hzero
      · exact hbytes hnil
    · exact ih hmem

theorem cutLines_single {line : Bytes} (h : newline ∉ line) :
    cutLines (line ++ [newline]) = ([line], []) :=
  cutLines_line h []

end Bytes

/-! ## Idle connections -/

namespace Connection

/-- A connection that waits for its client.  Everything that was sent to it is
answered, and its stream takes whatever it is given. -/
structure Idle (connection : Connection) (maxLine : Nat) : Prop where
  phase : connection.phase = .reading
  buffer : connection.buffer = []
  arrivals : connection.arrivals = []
  sink : connection.sink = .unlimited
  unsignalled : connection.listener.signalled = false
  maxLine : connection.maxLine = maxLine

variable {connection : Connection} {maxLine : Nat} {shared : Shared}

theorem Idle.undisturbed (h : connection.Idle maxLine) {signal : Signal}
    (hs : signal.value = false) : connection.Undisturbed signal where
  willing := h.sink ▸ Sink.willing_unlimited
  unsignalled := h.unsignalled
  deaf := by rw [Listener.hears, hs, Bool.and_false]

theorem Idle.eq_self (h : connection.Idle maxLine) :
    { connection with buffer := [], arrivals := [], phase := .reading } = connection := by
  obtain ⟨client, limit, detached, listener, sink, arrivals, buffer, phase⟩ := connection
  obtain ⟨rfl, rfl, rfl, rfl, -, -⟩ := h
  rfl

theorem Idle.settle (h : connection.Idle maxLine) (hs : shared.signal.value = false) :
    connection.settle shared = ⟨shared, some connection, []⟩ := by
  refine settle_of_waits ?_
  have hdeaf := (h.undisturbed hs).deaf
  simp [step, h.phase, h.buffer, Bytes.lineEnd?, readMore, h.unsignalled, Listener.poll, hdeaf,
    read, h.arrivals]

/-- A line that is sent to an idle connection is executed and answered, and the
connection is idle again. -/
theorem Idle.settle_line (h : connection.Idle maxLine) (hs : shared.signal.value = false)
    {line : Bytes} (hn : Bytes.newline ∉ line) (hl : line.length ≤ maxLine) {reads : List Bytes}
    (hne : ∀ read ∈ reads, read ≠ []) (hreads : reads.flatten = line ++ [Bytes.newline]) :
    ∃ (after : Shared) (events : List Event),
      Executes shared after [line] events ∧
        ({ connection with
            arrivals := connection.arrivals ++ reads.map Arrival.data }).settle shared =
          ⟨after, some connection, events⟩ := by
  let sending := { connection with arrivals := connection.arrivals ++ reads.map Arrival.data }
  have hu : sending.Undisturbed shared.signal :=
    ⟨(h.undisturbed hs).willing, h.unsignalled, (h.undisturbed hs).deaf⟩
  have ha : sending.arrivals = reads.map .data ++ [] := by
    simp only [sending, h.arrivals, List.nil_append, List.append_nil]
  obtain ⟨after, events, hexecutes, hshort, -⟩ := settle_reads hu h.phase hne ha
  have hstream : sending.buffer ++ reads.flatten = line ++ [Bytes.newline] := by
    simp only [sending, h.buffer, hreads, List.nil_append]
  have hmax : line.length ≤ sending.maxLine := h.maxLine ▸ hl
  have hfits : Bytes.Fits sending.maxLine (line ++ [Bytes.newline]) := by
    simpa [Bytes.Fits, Bytes.linesAndTail, Bytes.cutLines_single hn] using hmax
  have hafter : sending.afterReads (line ++ [Bytes.newline]) [] = connection := by
    rw [afterReads, Bytes.cutLines_single hn]
    exact h.eq_self
  -- the stream is one line without a tail, so the end of it finds the connection as it was
  rw [hstream] at hexecutes hshort
  rw [Bytes.linesWithin_of_fits hfits, Bytes.cutLines_single hn] at hexecutes
  refine ⟨after, events, hexecutes, ?_⟩
  rw [hshort hfits, hafter, h.settle (hexecutes.signal ▸ hs)]
  simp [Settled.after]

theorem settle_new {setup : Hub.Setup} (hsink : setup.sink = .unlimited)
    (hs : shared.signal.value = false) :
    ∃ idle : Connection, idle.Idle setup.maxLine ∧
      setup.connection.settle shared = ⟨shared, some idle, [.connected]⟩ := by
  let idle : Connection := { setup.connection with phase := .reading }
  have hidle : idle.Idle setup.maxLine := by
    refine ⟨rfl, rfl, rfl, hsink, ?_, rfl⟩
    show (if setup.attached then Listener.new else .never).signalled = false
    split <;> rfl
  have hstep : setup.connection.step shared = .goes shared idle [.connected] := rfl
  refine ⟨idle, hidle, ?_⟩
  rw [settle_of_goes hstep, hidle.settle hs]
  rfl

end Connection

/-! ## Quiet hubs -/

namespace Hub

open Connection

/-- A hub in which all connections are idle, and nothing is signalled. -/
structure Quiet (hub : Hub) (maxLine : Nat) : Prop where
  ordered : Ordered hub.live
  idle : ∀ entry ∈ hub.live, entry.2.Idle maxLine
  unsignalled : hub.shared.signal.value = false

variable {hub : Hub} {maxLine id : Nat} {shared : Shared} {live : List (Nat × Connection)}

theorem settleAll_idle (h : ∀ entry ∈ live, entry.2.Idle maxLine)
    (hs : shared.signal.value = false) : settleAll shared live = (⟨shared, live⟩, []) := by
  induction live with
  | nil => rfl
  | cons entry live ih =>
    obtain ⟨hfirst, hrest⟩ := List.forall_mem_cons.mp h
    simp only [settleAll, hfirst.settle hs, ih hrest]
    rfl

/-- Among idle connections only one has something to do. -/
theorem settleAll_middle {front rest : List (Nat × Connection)}
    (hfront : ∀ entry ∈ front, entry.2.Idle maxLine)
    (hrest : ∀ entry ∈ rest, entry.2.Idle maxLine) (hs : shared.signal.value = false)
    {connection next : Connection} {after : Shared} {events : List Event}
    (hsettle : connection.settle shared = ⟨after, some next, events⟩)
    (hafter : after.signal = shared.signal) :
    settleAll shared (front ++ (id, connection) :: rest) =
      (⟨after, front ++ (id, next) :: rest⟩,
        events.map fun event => ⟨id, connection.client, event⟩) := by
  induction front with
  | nil =>
    simp only [List.nil_append, settleAll, hsettle, settleAll_idle hrest (hafter ▸ hs)]
    simp
  | cons entry front ih =>
    obtain ⟨hfirst, hothers⟩ := List.forall_mem_cons.mp hfront
    simp only [List.cons_append, settleAll, hfirst.settle hs, ih hothers]
    rfl

theorem modify_of_notMem (shared : Shared) (h : id ∉ ids live)
    (change : Connection → Connection) :
    Hub.modify ⟨shared, live⟩ id change = ⟨shared, live⟩ := by
  unfold modify
  dsimp only
  congr 1
  induction live with
  | nil => rfl
  | cons entry live ih =>
    obtain ⟨hne, hrest⟩ := not_or.mp (mt List.mem_cons.mpr h)
    rw [List.map_cons, ih hrest, if_neg (Ne.symm hne)]

/-- The connection behind `front` is modified where it stands. -/
theorem modify_middle {front rest : List (Nat × Connection)} {connection : Connection}
    (hfront : id ∉ ids front) (hrest : id ∉ ids rest) (change : Connection → Connection) :
    Hub.modify ⟨shared, front ++ (id, connection) :: rest⟩ id change =
      ⟨shared, front ++ (id, change connection) :: rest⟩ := by
  have hf := congrArg Hub.live (modify_of_notMem shared hfront change)
  have hr := congrArg Hub.live (modify_of_notMem shared hrest change)
  unfold modify at hf hr ⊢
  dsimp only at hf hr ⊢
  rw [List.map_append, List.map_cons, hf, hr, if_pos rfl]

/-- A line that comes for one connection of a quiet hub, by whatever reads, is
executed and answered, and the hub is quiet again. -/
theorem Quiet.step_deliver (h : hub.Quiet maxLine) (hid : id ∈ ids hub.live) {line : Bytes}
    {reads : List Bytes} (hn : Bytes.newline ∉ line) (hl : line.length ≤ maxLine)
    (hreads : ∀ bytes ∈ reads, bytes ≠ []) (hline : reads.flatten = line ++ [Bytes.newline]) :
    ∃ after : Shared,
      (hub.step (.deliver id reads)).1 = ⟨after, hub.live⟩ ∧
        after.signal = hub.shared.signal ∧
        after.store = (Command.executeLine hub.shared.store line).store ∧
        output (hub.step (.deliver id reads)).2 id =
          (Command.executeLine hub.shared.store line).reply.wire := by
  obtain ⟨front, connection, rest, hlive, hfront, hrest⟩ := exists_middle h.ordered hid
  have hidle := h.idle
  rw [hlive] at hidle
  obtain ⟨hidles, hothers⟩ := List.forall_mem_append.mp hidle
  obtain ⟨hthis, hlater⟩ := List.forall_mem_cons.mp hothers
  obtain ⟨after, events, hexecutes, hsettle⟩ :=
    hthis.settle_line h.unsignalled hn hl hreads hline
  have hstep : hub.step (.deliver id reads) =
      (⟨after, front ++ (id, connection) :: rest⟩,
        events.map fun event => ⟨id, connection.client, event⟩) := by
    obtain ⟨shared, live⟩ := hub
    obtain rfl : live = front ++ (id, connection) :: rest := hlive
    unfold step
    simp only [apply, queue, modify_middle hfront hrest]
    exact settleAll_middle hidles hlater h.unsignalled hsettle hexecutes.signal
  rw [hstep, output_eq, eventsOf_map, if_pos rfl, hexecutes.sent, hlive]
  refine ⟨after, rfl, hexecutes.signal, ?_, ?_⟩
  · rw [hexecutes.store]
    rfl
  · simp [Command.executeLines]

theorem Quiet.step_send (h : hub.Quiet maxLine) (hid : id ∈ ids hub.live) {line : Bytes}
    (hn : Bytes.newline ∉ line) (hl : line.length ≤ maxLine) :
    ∃ after : Shared,
      (hub.step (.send id (line ++ [Bytes.newline]))).1 = ⟨after, hub.live⟩ ∧
        after.signal = hub.shared.signal ∧
        after.store = (Command.executeLine hub.shared.store line).store ∧
        output (hub.step (.send id (line ++ [Bytes.newline]))).2 id =
          (Command.executeLine hub.shared.store line).reply.wire :=
  h.step_deliver hid hn hl (fun _ => Bytes.ne_nil_of_mem_pieces)
    (Bytes.flatten_pieces (by decide) (line ++ [Bytes.newline]))

theorem exists_insert (id : Nat) (connection : Connection) (live : List (Nat × Connection)) :
    ∃ front rest, insert id connection live = front ++ (id, connection) :: rest ∧
      (∀ entry ∈ front, entry ∈ live) ∧ ∀ entry ∈ rest, entry ∈ live := by
  induction live with
  | nil => exact ⟨[], [], rfl, by simp, by simp⟩
  | cons entry live ih =>
    obtain ⟨number, old⟩ := entry
    rw [insert]
    split
    · exact ⟨[], (number, old) :: live, rfl, by simp, fun _ h => h⟩
    · split
      · exact ⟨[], live, rfl, by simp, fun _ h => List.mem_cons_of_mem _ h⟩
      · obtain ⟨front, rest, heq, hfront, hrest⟩ := ih
        refine ⟨(number, old) :: front, rest, by rw [heq]; rfl, ?_, ?_⟩
        · intro e he
          rcases List.mem_cons.mp he with rfl | hmem
          · exact List.mem_cons_self
          · exact List.mem_cons_of_mem _ (hfront e hmem)
        · intro e he
          exact List.mem_cons_of_mem _ (hrest e he)

/-- A client that connects to a quiet hub leaves it quiet. -/
theorem Quiet.step_connect (h : hub.Quiet maxLine) (id : Nat) {setup : Setup}
    (hsink : setup.sink = .unlimited) (hmax : setup.maxLine = maxLine) :
    (hub.step (.connect id setup)).1.Quiet maxLine ∧
      (hub.step (.connect id setup)).1.shared.store = hub.shared.store ∧
      ∀ other, other ∈ ids (hub.step (.connect id setup)).1.live ↔
        other = id ∨ other ∈ ids hub.live := by
  obtain ⟨front, rest, hinsert, hfront, hrest⟩ :=
    exists_insert id setup.connection hub.live
  let shared : Shared := { hub.shared with traffic := hub.shared.traffic.opened }
  have hs : shared.signal.value = false := h.unsignalled
  obtain ⟨idle, hidle, hsettle⟩ := settle_new hsink hs
  have hstep : (hub.step (.connect id setup)).1 = ⟨shared, front ++ (id, idle) :: rest⟩ := by
    unfold step
    simp only [apply, hinsert]
    rw [settleAll_middle (fun e he => h.idle e (hfront e he))
      (fun e he => h.idle e (hrest e he)) hs hsettle rfl]
  have hids : ids (front ++ (id, idle) :: rest) = ids (insert id setup.connection hub.live) := by
    rw [hinsert]
    simp [ids]
  rw [hstep]
  refine ⟨⟨?_, ?_, h.unsignalled⟩, rfl, ?_⟩
  · exact (h.ordered.insert id setup.connection).sublist (hids ▸ List.Sublist.refl _)
  · refine List.forall_mem_append.mpr ⟨fun e he => h.idle e (hfront e he), ?_⟩
    exact List.forall_mem_cons.mpr ⟨hmax ▸ hidle, fun e he => h.idle e (hrest e he)⟩
  · intro other
    rw [hids, mem_ids_insert]

end Hub

end LineStore
