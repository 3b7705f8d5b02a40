import LineStore.Proofs.Settling

/-!
# The latch

A connection that follows the shutdown signal notices it where it would read,
and latches.  From then on it only ends, whatever becomes of the signal.

* `Connection.blocked_of_waits`: while the signal is given, the only thing that
  a connection that follows it waits for is a write.
* `Connection.Latched` is the invariant of the latch.  A connection that has
  noticed the signal has nothing left to do.
* `Connection.Life.closed` is what follows for every connection that was closed
  for shutdown, at any time.
-/

namespace LineStore

namespace Sink

variable {sink : Sink} {size : Nat}

/-! ## Writes that wait -/

theorem le_taken_pushFrom (sink : Sink) (left taken : Nat) :
    taken ≤ (sink.pushFrom left taken).taken := by
  fun_induction pushFrom sink left taken with
  | case1 | case2 | case3 | case4 => exact Nat.le_refl _
  | case5 _ _ taken _ count _ _ _ ih => omega

/-- Writes that wait at once wait because nothing may be taken. -/
theorem allowance?_of_stalled (hw : (sink.push size).stop = .waiting)
    (ht : (sink.push size).taken = 0) : sink.allowance? = some 0 := by
  unfold push at hw ht
  rw [pushFrom] at hw ht
  split at hw
  · simp at hw
  · rename_i hs
    rw [if_neg hs] at ht
    split at hw
    · rename_i hwaits
      have ho := offering_offer sink size
      rw [hwaits] at ho
      cases ho with
      | waits ha => exact ha
    · simp at hw
    · rename_i count next ho
      rw [ho] at ht
      dsimp only at hw ht
      split at hw
      · simp at hw
      · rename_i hc
        rw [if_neg hc] at ht
        have hle := le_taken_pushFrom next (size - count) (0 + count)
        omega

end Sink

namespace Connection

open Bytes

variable {connection next : Connection} {shared : Shared}

/-! ## Connections that wait within a reply -/

/-- A connection that waits within a write: there is a part of a reply left, and
its client's stream takes nothing now. -/
def Blocked (connection : Connection) : Prop :=
  ∃ reply rest, connection.phase = .replying reply rest ∧ rest ≠ [] ∧
    connection.sink.allowance? = some 0

theorem Blocked.ne_fresh (h : connection.Blocked) : connection.phase ≠ .fresh := by
  obtain ⟨reply, rest, hp, -⟩ := h
  rw [hp]
  exact Phase.noConfusion

/-- Under the signal, a connection that follows it waits nowhere but within a
write. -/
theorem blocked_of_waits (h : connection.step shared = .waits)
    (hh : connection.listener.hears shared.signal = true) : connection.Blocked := by
  have ht := transition_step connection shared
  rw [h] at ht
  cases ht with
  | idles hr =>
    have hdeaf := hr.undisturbed
    rw [hh] at hdeaf
    exact Bool.noConfusion hdeaf
  | @stalls reply rest hp hw ht =>
    refine ⟨reply, rest, hp, ?_, Sink.allowance?_of_stalled hw ht⟩
    rintro rfl
    simp [Sink.push, Sink.pushFrom] at hw

/-! ## The latch -/

/-- A connection that has noticed the signal follows it, and has come to the end
of what it can do: no line is left in its buffer, and what is left is within
the limit. -/
def Latched (connection : Connection) : Prop :=
  connection.listener.signalled = true →
    connection.listener.attached = true ∧ connection.phase = .reading ∧
      lineEnd? connection.buffer = none ∧ connection.buffer.length ≤ connection.maxLine

theorem latched_of_unsignalled (h : connection.listener.signalled = false) :
    connection.Latched := by
  intro hs
  rw [h] at hs
  exact Bool.noConfusion hs

theorem Latched.step (h : connection.Latched)
    (hn : (connection.step shared).next? connection = some next) : next.Latched := by
  have ht := transition_step connection shared
  generalize connection.step shared = progress at hn ht
  intro hs
  cases ht with
  | starts hp =>
    obtain rfl : _ = next := Option.some.inj hn
    have hphase := (h hs).2.1
    rw [hp] at hphase
    exact Phase.noConfusion hphase
  | answers hp hl =>
    obtain rfl : _ = next := Option.some.inj hn
    have hnone := (h hs).2.2.1
    rw [hl] at hnone
    exact absurd hnone (by simp)
  | notices hp hl _ hb hh =>
    obtain rfl : _ = next := Option.some.inj hn
    exact ⟨(Bool.and_eq_true_iff.mp hh).1, hp, hl, hb⟩
  | reads hr =>
    obtain rfl : _ = next := Option.some.inj hn
    have hunsignalled := hr.unsignalled
    rw [hs] at hunsignalled
    exact Bool.noConfusion hunsignalled
  | idles | stalls =>
    obtain rfl : connection = next := Option.some.inj hn
    exact h hs
  | sendsPart hp | sends hp =>
    obtain rfl : _ = next := Option.some.inj hn
    have hphase := (h hs).2.1
    rw [hp] at hphase
    exact Phase.noConfusion hphase
  | exceeds | closes | streamEnds | readFails | sendFails =>
    exact absurd hn (by simp [finish, finishTooLong])

theorem attached_of_step (hn : (connection.step shared).next? connection = some next) :
    next.listener.attached = connection.listener.attached := by
  have ht := transition_step connection shared
  generalize connection.step shared = progress at hn ht
  cases ht <;>
    simp only [Progress.next?, answerLine, finish, finishTooLong, Option.some.injEq,
      reduceCtorEq] at hn <;>
    subst hn <;> rfl

/-! ## What an orderly end means -/

@[simp] theorem filterMap_outcome?_takenEvents (rest : Bytes) (taken : Nat) :
    (takenEvents rest taken).filterMap Event.outcome? = [] :=
  filterMap_takenEvents (fun _ => rfl) rest taken

/-- A connection is closed for shutdown by a step that does nothing else. -/
theorem step_of_closed
    (h : Outcome.closed ∈ (connection.step shared).events.filterMap Event.outcome?) :
    connection.phase = .reading ∧ connection.listener.signalled = true ∧
      connection.step shared = connection.finish shared [] .closed := by
  have ht := transition_step connection shared
  generalize connection.step shared = progress at h ht
  cases ht with
  | closes hp hl hs => exact ⟨hp, hs, rfl⟩
  | _ => simp [finish, finishTooLong, answerLine, List.filterMap_cons] at h

variable {start : Connection} {sent : Bytes} {events : List Event}
  {connection? : Option Connection}

theorem Life.latched (h : Life start sent events connection?)
    (hs : start.listener.signalled = false) :
    ∀ connection, connection? = some connection →
      connection.Latched ∧ connection.listener.attached = start.listener.attached := by
  induction h with
  | opens =>
    rintro connection hsome
    obtain rfl := Option.some.inj hsome
    exact ⟨latched_of_unsignalled hs, rfl⟩
  | @advances _ _ connection shared _ ih =>
    obtain ⟨hlatched, hattached⟩ := ih connection rfl
    intro next hn
    exact ⟨hlatched.step hn, (attached_of_step hn).trans hattached⟩
  | @arrives _ _ connection arrivals _ ih =>
    rintro next hsome
    obtain rfl := Option.some.inj hsome
    exact ih connection rfl
  | @allows _ _ connection allowance? _ ih =>
    rintro next hsome
    obtain rfl := Option.some.inj hsome
    exact ih connection rfl
  | drops | misses => simp

/-- A connection that was closed for shutdown followed the signal, and has
answered all that it executed in full. -/
theorem Life.closed (h : Life start sent events connection?) (hp : start.phase = .fresh)
    (hs : start.listener.signalled = false)
    (hclosed : Outcome.closed ∈ events.filterMap Event.outcome?) :
    connection? = none ∧ start.listener.attached = true ∧
      events.flatMap Event.output = Reply.wires (events.filterMap Event.reply?) := by
  induction h with
  | opens => exact absurd hclosed List.not_mem_nil
  | @advances _ events connection shared h ih =>
    rw [List.filterMap_append] at hclosed
    rcases List.mem_append.mp hclosed with hold | hnew
    · exact absurd (ih hold).1 (by simp)
    · obtain ⟨hphase, hsignalled, hstep⟩ := step_of_closed hnew
      obtain ⟨hlatched, hattached⟩ := h.latched hs connection rfl
      have hconversing := (h.conversing hp).2 connection rfl
      rw [hphase] at hconversing
      have hsent : events.flatMap Event.output = Reply.wires (events.filterMap Event.reply?) :=
        hconversing
      refine ⟨?_, ?_, ?_⟩
      · rw [hstep]
        rfl
      · rw [← hattached]
        exact (hlatched hsignalled).1
      · rw [hstep]
        simpa [finish, List.filterMap_cons] using hsent
  | arrives _ _ ih => exact absurd (ih hclosed).1 (by simp)
  | allows _ _ ih => exact absurd (ih hclosed).1 (by simp)
  | drops _ ih => exact ⟨rfl, (ih hclosed).2⟩
  | misses _ _ ih => exact ih hclosed

end Connection

end LineStore
