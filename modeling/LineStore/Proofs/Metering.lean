import LineStore.Proofs.Latch

/-!
# What the traffic counters count

The counters of a server move with the events of its connections: with every
read, every executed line, every reply sent in full and every end of a
connection.  Only an opening is counted without an event.

* `Event.received?` and `Event.sent?` read what was received, and the replies
  sent in full, off the events.
* `Traffic.after` are the counters after a number of openings and the given
  events.
* `Connection.traffic_of_step` is about one step, and `Hub.traffic_of_play`
  about any schedule.
-/

namespace LineStore

namespace Connection

@[simp] def Event.received? : Event → Option Bytes
  | received bytes => some bytes
  | _ => none

/-- The reply that an event says was sent in full. -/
@[simp] def Event.sent? : Event → Option Reply
  | sent reply => some reply
  | _ => none

@[simp] theorem filterMap_received?_takenEvents (rest : Bytes) (taken : Nat) :
    (takenEvents rest taken).filterMap Event.received? = [] :=
  filterMap_takenEvents (fun _ => rfl) rest taken

@[simp] theorem filterMap_sent?_takenEvents (rest : Bytes) (taken : Nat) :
    (takenEvents rest taken).filterMap Event.sent? = [] :=
  filterMap_takenEvents (fun _ => rfl) rest taken

end Connection

open Connection

/-- The counters after a number of openings and the given events. -/
def Traffic.after (traffic : Traffic) (opened : Nat) (events : List Event) : Traffic where
  accepted := traffic.accepted + UInt64.ofNat opened
  active := traffic.active + UInt64.ofNat opened -
    UInt64.ofNat (events.filterMap Event.outcome?).length
  commands := traffic.commands + UInt64.ofNat (events.filterMap Event.reply?).length
  bytesRead := traffic.bytesRead +
    UInt64.ofNat (events.filterMap Event.received?).flatten.length
  bytesWritten := traffic.bytesWritten +
    UInt64.ofNat (Reply.wires (events.filterMap Event.sent?)).length

theorem Traffic.after_append (traffic : Traffic) (opened more : Nat)
    (events later : List Event) :
    traffic.after (opened + more) (events ++ later) =
      (traffic.after opened events).after more later := by
  simp only [after, List.filterMap_append, List.flatten_append, Reply.wires_append,
    List.length_append, UInt64.ofNat_add, Traffic.mk.injEq]
  grind

/-- A step counts what its events say. -/
theorem Connection.traffic_of_step (connection : Connection) (shared : Shared) :
    ((connection.step shared).shared shared).traffic =
      shared.traffic.after 0 (connection.step shared).events := by
  have ht := transition_step connection shared
  generalize connection.step shared = progress at ht
  cases ht with
  | answers =>
    simp [answerLine, Traffic.after, Traffic.processed, List.filterMap_cons]
  | reads => simp [Traffic.after, Traffic.received, List.filterMap_cons]
  | sends => simp [Traffic.after, Traffic.sent, List.filterMap_cons]
  | _ => simp [finish, finishTooLong, Traffic.after, Traffic.closed, List.filterMap_cons]

namespace Hub

/-- Tells whether a move opens a connection. -/
def Move.opens : Move → Bool
  | stimulus (.connect ..) => true
  | _ => false

theorem traffic_of_move (hub : Hub) (move : Move) :
    (hub.move move).1.shared.traffic =
      hub.shared.traffic.after ([move].countP Move.opens)
        ((hub.move move).2.map Occurrence.event) := by
  cases move with
  | stimulus outside =>
    cases outside <;>
      simp [Hub.move, apply, queue, modify, Move.opens, Traffic.after, Traffic.opened]
  | advance id =>
    have hopens : [Move.advance id].countP Move.opens = 0 := rfl
    rw [hopens, Hub.move]
    unfold advance
    cases hub.live.lookup id with
    | none => simp [Traffic.after]
    | some connection =>
      simpa [Function.comp_def] using traffic_of_step connection hub.shared

/-- Whatever the schedule, the counters have moved by the connections opened and
by what happened on them. -/
theorem traffic_of_play (hub : Hub) (moves : List Move) :
    (hub.play moves).1.shared.traffic =
      hub.shared.traffic.after (moves.countP Move.opens)
        ((hub.play moves).2.map Occurrence.event) := by
  induction moves generalizing hub with
  | nil => simp [Traffic.after]
  | cons first rest ih =>
    rw [play_cons, List.map_append, ← List.singleton_append, List.countP_append,
      Traffic.after_append, ← traffic_of_move]
    exact ih _

end Hub

end LineStore
