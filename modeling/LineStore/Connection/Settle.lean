import LineStore.Connection.Step

/-!
# Runs of steps

`Connection.settle` goes on until the connection waits or ends.  Every step
uses up something that was there before: an arrival, a line of the buffer, a
reply, or the signal not yet noticed.  `Connection.work` adds these up, and
`work_lt_of_goes` says that each step lowers it.

`settle_of_waits`, `settle_of_goes` and `settle_of_ends` give a run by its
first step.
-/

namespace LineStore.Connection

/-! ## Every run of steps comes to an end -/

/-- A bound on the steps that an arrival leads to. -/
def arrivalWork : Arrival → Nat
  | .data bytes => 4 * (bytes.length + 1)
  | .fault _ => 1
  | .streamEnd => 1

/-- A bound on the steps that a phase leads to, before a line is taken or a
read is made. -/
def phaseWork (sink : Sink) : Phase → Nat
  | .fresh => 1
  | .reading => 0
  | .replying .. => if sink.allowance? = some 0 then 1 else 2

/-- A bound on the steps that a connection can make before it waits or
ends. -/
def work (connection : Connection) : Nat :=
  connection.arrivals.foldr (fun arrival rest => arrivalWork arrival + rest) 0 +
    3 * connection.buffer.length +
    phaseWork connection.sink connection.phase +
    if connection.listener.signalled then 0 else 1

/-- Sending a part of a reply uses up the sink's allowance, and sending all of
it ends the reply. -/
theorem work_lt_of_sendRest {connection next : Connection} {shared shared' : Shared}
    {reply : Reply} {rest : Bytes} {events : List Event}
    (hp : connection.phase = .replying reply rest)
    (h : connection.sendRest shared reply rest = .goes shared' next events) :
    next.work < connection.work := by
  unfold sendRest at h
  dsimp only at h
  split at h
  · rename_i hs
    split at h
    · simp at h
    · rename_i ht
      simp only [Progress.goes.injEq] at h
      obtain ⟨-, rfl, -⟩ := h
      have hz : (connection.sink.push rest.length).sink.allowance? = some 0 :=
        Sink.allowance?_of_waiting hs
      have hn : connection.sink.allowance? ≠ some 0 := by
        intro ha
        apply ht
        unfold Sink.push Sink.pushFrom
        split
        · rfl
        · simp [Sink.offer, ha]
      simp [work, hp, phaseWork, hn, hz]
  · simp [finish] at h
  · split at h
    · simp [finish] at h
    · simp only [Progress.goes.injEq] at h
      obtain ⟨-, rfl, -⟩ := h
      simp only [work, hp, phaseWork]
      split <;> split <;> omega

/-- Reading uses up an arrival. -/
theorem work_lt_of_read {connection next : Connection} {shared shared' : Shared}
    {events : List Event} (hp : connection.phase = .reading)
    (h : connection.read shared = .goes shared' next events) :
    next.work < connection.work := by
  unfold read at h
  dsimp only at h
  split at h
  · simp at h
  · simp [finish] at h
  · simp [finish] at h
  · rename_i bytes arrivals ha
    split at h
    · simp [finish] at h
    · simp only [Progress.goes.injEq] at h
      obtain ⟨-, rfl, -⟩ := h
      simp only [work, hp, phaseWork, ha, arrivalWork, List.foldr_cons, List.length_append]
      omega

/-- Without a complete line, the signal is noticed once, and otherwise a read
is made. -/
theorem work_lt_of_readMore {connection next : Connection} {shared shared' : Shared}
    {events : List Event} (hp : connection.phase = .reading)
    (h : connection.readMore shared = .goes shared' next events) :
    next.work < connection.work := by
  unfold readMore at h
  split at h
  · simp [finish] at h
  · rename_i hn
    split at h
    · simp [finishTooLong, finish] at h
    · split at h
      · rename_i listener hl
        simp only [Progress.goes.injEq] at h
        obtain ⟨-, rfl, -⟩ := h
        simp only [Listener.poll, Prod.mk.injEq] at hl
        obtain ⟨hs, rfl⟩ := hl
        simpa [work, hp, phaseWork, hn] using hs
      · exact work_lt_of_read hp h

/-- Taking a line uses up its newline. -/
theorem work_lt_of_answerLine {connection next : Connection} {shared shared' : Shared}
    {size : Nat} {events : List Event} (hp : connection.phase = .reading)
    (hl : Bytes.lineEnd? connection.buffer = some size)
    (h : connection.answerLine shared size = .goes shared' next events) :
    next.work < connection.work := by
  unfold answerLine at h
  simp only [Progress.goes.injEq] at h
  obtain ⟨-, rfl, -⟩ := h
  have hlt := Bytes.lt_length_of_lineEnd? hl
  simp only [work, hp, phaseWork, List.length_drop]
  split <;> omega

/-- Every step lowers the bound on the steps to come. -/
theorem work_lt_of_goes {connection next : Connection} {shared shared' : Shared}
    {events : List Event} (h : connection.step shared = .goes shared' next events) :
    next.work < connection.work := by
  unfold step at h
  split at h
  · rename_i hp
    simp only [Progress.goes.injEq] at h
    obtain ⟨-, rfl, -⟩ := h
    simp [work, hp, phaseWork]
  · rename_i hp
    exact work_lt_of_sendRest hp h
  · rename_i hp
    split at h
    · rename_i size hl
      split at h
      · simp [finishTooLong, finish] at h
      · exact work_lt_of_answerLine hp hl h
    · exact work_lt_of_readMore hp h

/-! ## Runs of steps -/

/-- Where a run of steps leads: what is shared, the connection if it has not
ended, and the events on the way. -/
structure Settled where
  shared : Shared
  connection? : Option Connection
  events : List Event

/-- All steps until the connection waits or ends.  `past` holds earlier
events, the latest first. -/
def settleFrom (past : List Event) (connection : Connection) (shared : Shared) : Settled :=
  match _h : connection.step shared with
  | .waits => ⟨shared, some connection, past.reverse⟩
  | .goes nextShared next events => settleFrom (events.reverse ++ past) next nextShared
  | .ends nextShared events => ⟨nextShared, none, (events.reverse ++ past).reverse⟩
termination_by connection.work
decreasing_by exact work_lt_of_goes _h

/-- All steps until the connection waits or ends. -/
def settle (connection : Connection) (shared : Shared) : Settled :=
  settleFrom [] connection shared

theorem settle_of_waits {connection : Connection} {shared : Shared}
    (h : connection.step shared = .waits) :
    connection.settle shared = ⟨shared, some connection, []⟩ := by
  unfold settle settleFrom
  split <;> simp_all

theorem settle_of_ends {connection : Connection} {shared nextShared : Shared}
    {events : List Event} (h : connection.step shared = .ends nextShared events) :
    connection.settle shared = ⟨nextShared, none, events⟩ := by
  unfold settle settleFrom
  split <;> simp_all

/-- Earlier events only stand in front. -/
theorem settleFrom_eq (past : List Event) (connection : Connection) (shared : Shared) :
    settleFrom past connection shared =
      ⟨(connection.settle shared).shared, (connection.settle shared).connection?,
        past.reverse ++ (connection.settle shared).events⟩ := by
  induction hw : connection.work using Nat.strongRecOn generalizing past connection shared with
  | ind work ih =>
    cases h : connection.step shared with
    | waits =>
      rw [settle_of_waits h, settleFrom]
      split <;> simp_all
    | ends nextShared events =>
      rw [settle_of_ends h, settleFrom]
      split <;> simp_all
    | goes nextShared next events =>
      have hgo : ∀ before, settleFrom before connection shared =
          settleFrom (events.reverse ++ before) next nextShared := by
        intro before
        rw [settleFrom]
        split <;> simp_all
      have hlt : next.work < work := hw ▸ work_lt_of_goes h
      simp only [settle, hgo, List.append_nil]
      rw [ih _ hlt _ next nextShared rfl, ih _ hlt events.reverse next nextShared rfl]
      simp

/-- A connection that goes on settles as it does after the step, with the
events of the step in front. -/
theorem settle_of_goes {connection next : Connection} {shared nextShared : Shared}
    {events : List Event} (h : connection.step shared = .goes nextShared next events) :
    connection.settle shared =
      ⟨(next.settle nextShared).shared, (next.settle nextShared).connection?,
        events ++ (next.settle nextShared).events⟩ := by
  have hgo : connection.settle shared = settleFrom events.reverse next nextShared := by
    unfold settle
    conv => lhs; unfold settleFrom
    split <;> simp_all
  rw [hgo, settleFrom_eq, List.reverse_reverse]

end LineStore.Connection
