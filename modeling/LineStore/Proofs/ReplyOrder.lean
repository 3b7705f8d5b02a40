import LineStore.Proofs.GlobalOrder

/-!
# Replies in order, under any output stream

A client's stream may take one byte at a time, wait anywhere, and fail
anywhere.  This module says what its peer can count on all the same.

* `advance_of_sendFault` is the step at which sending fails.
* The main result is about every reachable state.  The stream has taken all
  replies but the last in full and a part of the last one, and a failure ends
  the connection for good without undoing anything.
-/

namespace LineStore.Hub

open Connection

/-- A connection whose sending fails makes one last step.  The stream takes
what it still can, and the fault is the outcome. -/
theorem step_of_sendFault {connection : Connection} {fault : IOFault}
    (h : connection.sendFault? = some fault) (shared : Shared) :
    ∃ reply rest,
      connection.phase = .replying reply rest ∧
        connection.step shared =
          connection.finish shared
            (takenEvents rest (connection.sink.push rest.length).taken)
            (.failed (.io fault)) := by
  unfold sendFault? at h
  split at h
  · rename_i reply rest hp
    refine ⟨reply, rest, hp, ?_⟩
    unfold Connection.step
    simp only [hp]
    split at h
    · simp at h
    · rename_i hs
      obtain rfl := Option.some.inj h
      simp only [sendRest, hs]
      rfl
    · rename_i hs
      split at h
      · rename_i hflush
        obtain rfl := Option.some.inj h
        simp only [sendRest, hs, hflush]
        rfl
      · simp at h
  · simp at h

/-- The step at which sending fails: the stream takes what it still can, the
connection is gone, and the store stays as it is. -/
theorem advance_of_sendFault {hub : Hub} {id : Nat} {connection : Connection}
    {fault : IOFault} (hl : hub.live.lookup id = some connection)
    (hf : connection.sendFault? = some fault) :
    ∃ reply rest,
      connection.phase = .replying reply rest ∧
        eventsOf id (hub.advance id).2 =
          takenEvents rest (connection.sink.push rest.length).taken ++
            [.ended connection.detached (.failed (.io fault))] ∧
        (hub.advance id).1.shared.store = hub.shared.store ∧
        id ∉ ids (hub.advance id).1.live := by
  obtain ⟨reply, rest, hp, hstep⟩ := step_of_sendFault hf hub.shared
  refine ⟨reply, rest, hp, ?_, ?_, ?_⟩
  · rw [eventsOf_advance, if_pos rfl, hl]
    dsimp only
    rw [hstep]
    rfl
  · unfold advance
    rw [hl]
    dsimp only
    rw [hstep]
    rfl
  · rw [← lookup_eq_none_iff, lookup_advance, if_pos rfl, hl, Option.bind_some, hstep]
    rfl

/-- Whatever the stream of a client does, and whatever the other clients do,
the stream has taken the replies to the lines executed for it in their order.
All of them but the last it has taken in full, so no line is executed before
the reply to the line before it is out.  The store holds what all executed
lines have left.

Where sending a reply fails, the connection takes one more step.  It ends with
the fault as its outcome, executes nothing any more, and leaves the store as
the line has left it. -/
theorem answered_in_order (hub : Hub) (id : Nat) (setup : Setup) {moves : List Move}
    (hc : ∀ move ∈ moves, move.connects id = false) :
    let opened := hub.apply (.connect id setup)
    let now := (opened.play moves).1
    let occurrences := (opened.play moves).2
    AnsweredInOrder (restrict id (repliesOf occurrences)) (output occurrences id) ∧
      (restrict id (linesOf occurrences)).length =
        (restrict id (repliesOf occurrences)).length ∧
      Command.executeLines hub.shared.store ((linesOf occurrences).map Prod.snd) =
        ((repliesOf occurrences).map Prod.snd, now.shared.store) ∧
      ∀ (connection : Connection) (fault : IOFault),
        now.live.lookup id = some connection → connection.sendFault? = some fault →
        (now.advance id).1.shared.store = now.shared.store ∧
          ∃ reply rest,
            connection.phase = .replying reply rest ∧
              ∀ later : List Move, (∀ move ∈ later, move.connects id = false) →
                eventsOf id (now.play (.advance id :: later)).2 =
                  takenEvents rest (connection.sink.push rest.length).taken ++
                    [.ended connection.detached (.failed (.io fault))] := by
  intro opened now occurrences
  have hlife := life_of_play hub id setup hc
  refine ⟨?_, ?_, (executeLines_of_play opened moves).1, ?_⟩
  · have hanswered := hlife.answeredInOrder rfl
    rwa [← restrict_gather, ← output_eq] at hanswered
  · have hlength := hlife.length_lines
    rwa [← restrict_gather, ← restrict_gather] at hlength
  · intro connection fault hl hf
    obtain ⟨reply, rest, hp, hevents, hstore, hgone⟩ := advance_of_sendFault hl hf
    refine ⟨hstore, reply, rest, hp, ?_⟩
    intro later hlater
    rw [play_cons, eventsOf_append, Hub.move, hevents, gone_play hgone hlater,
      List.append_nil]

/-- A stream that takes one byte at a time and breaks after four of them.  Two
lines were sent at once; the first is answered in part, and the second, which
is in the buffer already, is not executed. -/
theorem answered_in_order_broken_pipe :
    let fault : IOFault := ⟨.brokenPipe, "broken pipe"⟩
    let setup : Setup :=
      ⟨"127.0.0.1:50000", 64, true, true, ⟨some 1, some 4, some fault, none, none, 0⟩⟩
    let moves : List Move :=
      [.advance 1, .stimulus (.send 1 (Utf8.ofString "PUT a b\nGET a\n")), .advance 1,
        .advance 1, .advance 1, .advance 1]
    let opened := (Hub.new .new (.new false)).apply (.connect 1 setup)
    let now := (opened.play moves).1
    AnsweredInOrder (restrict 1 (repliesOf (opened.play moves).2))
        (output (opened.play moves).2 1) ∧
      (now.advance 1).1.shared.store = now.shared.store ∧
      ∃ connection reply rest, now.live.lookup 1 = some connection ∧
        connection.phase = .replying reply rest ∧
        eventsOf 1 (now.play [.advance 1, .advance 1]).2 =
          takenEvents rest (connection.sink.push rest.length).taken ++
            [.ended connection.detached (.failed (.io fault))] := by
  intro fault setup moves opened now
  have hc : ∀ move ∈ moves, move.connects 1 = false := by decide
  have hbroken : (now.live.lookup 1).bind sendFault? = some fault := by decide +kernel
  obtain ⟨connection, hl, hf⟩ := Option.bind_eq_some_iff.mp hbroken
  obtain ⟨hanswered, -, -, hfails⟩ :=
    answered_in_order (Hub.new .new (.new false)) 1 setup hc
  obtain ⟨hstore, reply, rest, hp, hevents⟩ := hfails connection fault hl hf
  exact ⟨hanswered, hstore, connection, reply, rest, hl, hp, hevents [.advance 1] (by decide)⟩

end LineStore.Hub
