import LineStore.Proofs.Moves
import LineStore.Proofs.Sending
import Mathlib.Data.List.Basic

/-!
# The life of one connection

In a schedule a connection meets the moves of the others only through the
state that they share.  `Connection.Life` is what is left when one looks at a
single connection: its steps, in any shared states, what arrives for it, and
how it goes.

* `Life.framed` and `Life.conversing` are its two invariants.  The first says
  where the bytes of the client are, the second where the bytes of the replies
  are.
* `Life.lines_prefix` and `Life.answeredInOrder` are what a client can see of
  them.
* `life_of_play` finds a life in any schedule that starts with a new
  connection.
-/

namespace LineStore

namespace Connection

theorem arrivalBytes_map_data (reads : List Bytes) :
    arrivalBytes (reads.map .data) = reads.flatten := by
  induction reads with
  | nil => rfl
  | cons read reads ih =>
    rw [List.flatten_cons, ← ih]
    rfl

theorem arrivalBytes_append (arrivals more : List Arrival) :
    arrivalBytes (arrivals ++ more) = arrivalBytes arrivals ++ arrivalBytes more :=
  List.flatMap_append

/-- The lives of a connection: what its client has sent, the events so far,
and the connection as it is now, unless it is gone. -/
inductive Life (start : Connection) : Bytes → List Event → Option Connection → Prop
  | opens : Life start [] [] (some start)
  | advances {sent : Bytes} {events : List Event} {connection : Connection} (shared : Shared)
      (h : Life start sent events (some connection)) :
    Life start sent (events ++ (connection.step shared).events)
      ((connection.step shared).next? connection)
  | arrives {sent : Bytes} {events : List Event} {connection : Connection}
      (arrivals : List Arrival) (h : Life start sent events (some connection)) :
    Life start (sent ++ arrivalBytes arrivals) events
      (some { connection with arrivals := connection.arrivals ++ arrivals })
  /-- Its client's stream takes more, or less, from now on. -/
  | allows {sent : Bytes} {events : List Event} {connection : Connection}
      (allowance? : Option Nat) (h : Life start sent events (some connection)) :
    Life start sent events
      (some { connection with sink := { connection.sink with allowance? } })
  | drops {sent : Bytes} {events : List Event} {connection? : Option Connection}
      (h : Life start sent events connection?) : Life start sent events none
  /-- Its client sends bytes after it is gone. -/
  | misses {sent : Bytes} {events : List Event} (bytes : Bytes)
      (h : Life start sent events none) : Life start (sent ++ bytes) events none

/-- What follows in the life of a connection is a life of this connection. -/
theorem Life.trans {start connection : Connection} {sent more : Bytes}
    {events later : List Event} {next? : Option Connection}
    (h : Life start sent events (some connection)) (hmore : Life connection more later next?) :
    Life start (sent ++ more) (events ++ later) next? := by
  induction hmore with
  | opens => simpa using h
  | advances shared _ ih =>
    rw [← List.append_assoc]
    exact .advances shared ih
  | arrives arrivals _ ih =>
    rw [← List.append_assoc]
    exact .arrives arrivals ih
  | allows allowance? _ ih => exact .allows allowance? ih
  | drops _ ih => exact .drops ih
  | misses bytes _ ih =>
    rw [← List.append_assoc]
    exact .misses bytes ih

/-! ## Where the client's bytes are -/

/-- The lines executed are, with their newlines, the first bytes sent.  As
long as the connection is there, the other bytes are with it. -/
structure Framed (sent : Bytes) (lines : List Bytes) (connection? : Option Connection) :
    Prop where
  whole : ∀ line ∈ lines, Bytes.newline ∉ line
  front : Bytes.endLines lines <+: sent
  pending : ∀ connection, connection? = some connection →
    Bytes.endLines lines ++ connection.pendingBytes = sent

theorem framed_some {sent : Bytes} {lines : List Bytes} {connection : Connection}
    (hwhole : ∀ line ∈ lines, Bytes.newline ∉ line)
    (hpending : Bytes.endLines lines ++ connection.pendingBytes = sent) :
    Framed sent lines (some connection) where
  whole := hwhole
  front := ⟨_, hpending⟩
  pending _ hsome := Option.some.inj hsome ▸ hpending

/-- A step takes its lines off the bytes that are with the connection. -/
theorem Framed.step {sent : Bytes} {lines : List Bytes} {connection : Connection}
    (h : Framed sent lines (some connection)) (shared : Shared) :
    Framed sent (lines ++ (connection.step shared).events.filterMap Event.line?)
      ((connection.step shared).next? connection) := by
  have hsent := h.pending connection rfl
  cases hn : (connection.step shared).next? connection with
  | none =>
    -- what was pending is lost with the connection, but nothing more is executed
    rw [lines_of_ended hn, List.append_nil]
    exact ⟨h.whole, h.front, by simp⟩
  | some next =>
    refine framed_some ?_ ?_
    · intro line hline
      rcases List.mem_append.mp hline with hold | hnew
      · exact h.whole line hold
      · exact (line_of_step hnew).1
    · rw [Bytes.endLines_append, List.append_assoc, ← pendingBytes_of_step hn, hsent]

/-- No byte of the client is lost, repeated or moved before another. -/
theorem Life.framed {start : Connection} {sent : Bytes} {events : List Event}
    {connection? : Option Connection} (h : Life start sent events connection?)
    (hstart : start.pendingBytes = []) :
    Framed sent (events.filterMap Event.line?) connection? := by
  induction h with
  | opens => exact framed_some (by simp) (by simp [hstart])
  | advances shared _ ih =>
    rw [List.filterMap_append]
    exact ih.step shared
  | @arrives _ _ connection arrivals _ ih =>
    refine framed_some ih.whole ?_
    rw [← ih.pending connection rfl]
    simp only [pendingBytes, arrivalBytes_append, List.append_assoc]
  | @allows _ _ connection _ _ ih =>
    exact framed_some ih.whole (ih.pending connection rfl)
  | drops _ ih => exact ⟨ih.whole, ih.front, by simp⟩
  | misses bytes _ ih => exact ⟨ih.whole, ih.front.trans (List.prefix_append _ _), by simp⟩

theorem Life.lines_prefix {start : Connection} {sent : Bytes} {events : List Event}
    {connection? : Option Connection} (h : Life start sent events connection?)
    (hstart : start.pendingBytes = []) :
    events.filterMap Event.line? <+: (Bytes.cutLines sent).1 :=
  Bytes.prefix_cutLines (h.framed hstart).whole (h.framed hstart).front

/-! ## Where the bytes of the replies are -/

theorem length_lines_of_step (connection : Connection) (shared : Shared) :
    ((connection.step shared).events.filterMap Event.line?).length =
      ((connection.step shared).events.filterMap Event.reply?).length := by
  rw [← Command.length_executeLines shared.store, executeLines_of_step]

theorem Life.length_lines {start : Connection} {sent : Bytes} {events : List Event}
    {connection? : Option Connection} (h : Life start sent events connection?) :
    (events.filterMap Event.line?).length = (events.filterMap Event.reply?).length := by
  induction h with
  | opens => rfl
  | @advances _ _ connection shared _ ih =>
    simp only [List.filterMap_append, List.length_append, ih,
      length_lines_of_step connection shared]
  | arrives _ _ ih => exact ih
  | allows _ _ ih => exact ih
  | drops _ ih => exact ih
  | misses _ _ ih => exact ih

/-- As long as the connection is there, it holds what its client's stream has
not taken of the replies, and at all times the replies are answered in
order. -/
theorem Life.conversing {start : Connection} {sent : Bytes} {events : List Event}
    {connection? : Option Connection} (h : Life start sent events connection?)
    (hstart : start.phase = .fresh) :
    AnsweredInOrder (events.filterMap Event.reply?) (events.flatMap Event.output) ∧
      ∀ connection, connection? = some connection →
        Conversing (events.filterMap Event.reply?) (events.flatMap Event.output)
          connection.phase := by
  induction h with
  | opens =>
    have hnone : Conversing [] [] start.phase := by
      rw [hstart]
      rfl
    exact ⟨hnone.answeredInOrder, fun _ hsome => Option.some.inj hsome ▸ hnone⟩
  | @advances _ _ connection shared _ ih =>
    have hbefore := ih.2 connection rfl
    rw [List.filterMap_append, List.flatMap_append]
    exact ⟨hbefore.answeredInOrder_step, fun next hn => hbefore.step hn⟩
  | @arrives _ _ connection _ _ ih =>
    exact ⟨ih.1, fun _ hsome => Option.some.inj hsome ▸ ih.2 connection rfl⟩
  | @allows _ _ connection _ _ ih =>
    exact ⟨ih.1, fun _ hsome => Option.some.inj hsome ▸ ih.2 connection rfl⟩
  | drops _ ih => exact ⟨ih.1, by simp⟩
  | misses _ _ ih => exact ⟨ih.1, by simp⟩

/-- What a client's stream has taken answers the lines executed, in order. -/
theorem Life.answeredInOrder {start : Connection} {sent : Bytes} {events : List Event}
    {connection? : Option Connection} (h : Life start sent events connection?)
    (hstart : start.phase = .fresh) :
    AnsweredInOrder (events.filterMap Event.reply?) (events.flatMap Event.output) :=
  (h.conversing hstart).1

end Connection

/-! ## Lives in a schedule -/

namespace Hub

open Connection

def Move.connects (id : Nat) : Move → Bool
  | stimulus (.connect other _) => other = id
  | _ => false

/-- The bytes that a move sends to the connection with a number. -/
def Move.sentTo (id : Nat) : Move → Bytes
  | stimulus (.deliver other reads) => if other = id then reads.flatten else []
  | _ => []

/-- The bytes sent to the connection with a number. -/
def sentTo (id : Nat) (moves : List Move) : Bytes :=
  moves.flatMap (Move.sentTo id)

def eventsOf (id : Nat) (occurrences : List Occurrence) : List Event :=
  occurrences.filterMap fun occurrence =>
    if occurrence.id = id then some occurrence.event else none

@[simp] theorem eventsOf_nil (id : Nat) : eventsOf id [] = [] := rfl

@[simp] theorem eventsOf_append (id : Nat) (occurrences more : List Occurrence) :
    eventsOf id (occurrences ++ more) = eventsOf id occurrences ++ eventsOf id more :=
  List.filterMap_append

theorem eventsOf_map (id other : Nat) (client : String) (events : List Event) :
    eventsOf id (events.map fun event => ⟨other, client, event⟩) =
      if other = id then events else [] := by
  unfold eventsOf
  rw [List.filterMap_map]
  by_cases h : other = id
  · rw [if_pos h]
    exact (List.filterMap_congr fun _ _ => if_pos h).trans List.filterMap_some
  · rw [if_neg h]
    exact List.filterMap_eq_nil_iff.mpr fun _ _ => if_neg h

theorem output_eq (occurrences : List Occurrence) (id : Nat) :
    output occurrences id = (eventsOf id occurrences).flatMap Event.output := by
  induction occurrences with
  | nil => rfl
  | cons occurrence occurrences ih =>
    unfold output eventsOf at ih ⊢
    rw [List.flatMap_cons, List.filterMap_cons, ih]
    by_cases hid : occurrence.id = id
    · rw [if_pos hid]
      cases occurrence.event <;> simp [hid]
    · rw [if_neg hid]
      cases occurrence.event <;> simp [hid]

variable {hub : Hub} {id other : Nat}

theorem lookup_advance (hub : Hub) (other id : Nat) :
    (hub.advance other).1.live.lookup id =
      if id = other then
        (hub.live.lookup other).bind fun connection =>
          (connection.step hub.shared).next? connection
      else hub.live.lookup id := by
  unfold advance
  cases hl : hub.live.lookup other with
  | none =>
    by_cases h : id = other
    · simp [h, hl]
    · simp [h]
  | some connection =>
    dsimp only
    rw [lookup_replace, hl]
    rfl

theorem eventsOf_advance (hub : Hub) (other id : Nat) :
    eventsOf id (hub.advance other).2 =
      if id = other then
        match hub.live.lookup other with
        | some connection => (connection.step hub.shared).events
        | none => []
      else [] := by
  unfold advance
  cases hl : hub.live.lookup other with
  | none => simp
  | some connection => simp [eventsOf_map, eq_comm]

variable {start : Connection} {sent : Bytes} {events : List Event}

/-- What arrives for one connection is a part of its life, and nothing to the
others. -/
theorem life_queue (h : Life start sent events (hub.live.lookup id)) (other : Nat)
    (arrivals : List Arrival) :
    Life start (sent ++ if other = id then arrivalBytes arrivals else []) events
      ((hub.queue other arrivals).live.lookup id) := by
  unfold queue
  rw [lookup_modify]
  by_cases ho : id = other
  · subst ho
    rw [if_pos rfl, if_pos rfl]
    cases hl : hub.live.lookup id with
    | none => exact .misses _ (hl ▸ h)
    | some connection => exact .arrives arrivals (hl ▸ h)
  · rw [if_neg ho, if_neg (Ne.symm ho), List.append_nil]
    exact h

/-- A stimulus is a part of the life of a connection, unless it connects
another client in its place. -/
theorem life_apply (h : Life start sent events (hub.live.lookup id)) {stimulus : Stimulus}
    (hc : (Move.stimulus stimulus).connects id = false) :
    Life start (sent ++ (Move.stimulus stimulus).sentTo id) events
      ((hub.apply stimulus).live.lookup id) := by
  cases stimulus with
  | connect other setup =>
    have hne : id ≠ other := Ne.symm (by simpa [Move.connects] using hc)
    simp only [apply, lookup_insert, if_neg hne, Move.sentTo, List.append_nil]
    exact h
  | deliver other reads =>
    have hqueue := life_queue h other (reads.map .data)
    rwa [arrivalBytes_map_data] at hqueue
  | streamEnd other =>
    have hqueue := life_queue h other [.streamEnd]
    rwa [show arrivalBytes [.streamEnd] = [] from rfl, ite_self] at hqueue
  | readFault other fault =>
    have hqueue := life_queue h other [.fault fault]
    rwa [show arrivalBytes [.fault fault] = [] from rfl, ite_self] at hqueue
  | allow other allowance? =>
    simp only [apply, lookup_modify, Move.sentTo, List.append_nil]
    by_cases ho : id = other
    · subst ho
      rw [if_pos rfl]
      cases hl : hub.live.lookup id with
      | none =>
        rw [hl] at h
        exact h
      | some connection => exact .allows allowance? (hl ▸ h)
    · rw [if_neg ho]
      exact h
  | abort other =>
    simp only [apply, Move.sentTo, List.append_nil]
    rw [lookup_filter]
    split
    · exact h.drops
    · exact h
  | signal value =>
    simp only [Move.sentTo, List.append_nil]
    exact h
  | dropSender =>
    simp only [Move.sentTo, List.append_nil]
    exact h

theorem life_move (h : Life start sent events (hub.live.lookup id)) {move : Move}
    (hc : move.connects id = false) :
    Life start (sent ++ move.sentTo id) (events ++ eventsOf id (hub.move move).2)
      ((hub.move move).1.live.lookup id) := by
  cases move with
  | stimulus outside =>
    rw [Hub.move, eventsOf_nil, List.append_nil]
    exact life_apply h hc
  | advance other =>
    rw [Hub.move, lookup_advance, eventsOf_advance]
    simp only [Move.sentTo, List.append_nil]
    by_cases ho : id = other
    · subst ho
      rw [if_pos rfl, if_pos rfl]
      cases hl : hub.live.lookup id with
      | none => simpa using hl ▸ h
      | some connection => exact .advances hub.shared (hl ▸ h)
    · rw [if_neg ho, if_neg ho, List.append_nil]
      exact h

theorem life_moves (h : Life start sent events (hub.live.lookup id)) {moves : List Move}
    (hc : ∀ move ∈ moves, move.connects id = false) :
    Life start (sent ++ sentTo id moves) (events ++ eventsOf id (hub.play moves).2)
      ((hub.play moves).1.live.lookup id) := by
  induction moves generalizing hub sent events with
  | nil => simpa [sentTo] using h
  | cons first rest ih =>
    obtain ⟨hfirst, hrest⟩ := List.forall_mem_cons.mp hc
    have hlife := ih (life_move h hfirst) hrest
    rw [play_cons, eventsOf_append, ← List.append_assoc]
    simpa [sentTo] using hlife

/-- In any schedule, a new connection lives until another client takes its
number. -/
theorem life_of_play (hub : Hub) (id : Nat) (setup : Setup) {moves : List Move}
    (hc : ∀ move ∈ moves, move.connects id = false) :
    Life setup.connection (sentTo id moves)
      (eventsOf id ((hub.apply (.connect id setup)).play moves).2)
      (((hub.apply (.connect id setup)).play moves).1.live.lookup id) := by
  have hopens : Life setup.connection [] []
      ((hub.apply (.connect id setup)).live.lookup id) := by
    simp only [apply, lookup_insert, if_pos]
    exact .opens
  exact life_moves hopens hc

/-- A connection that is gone does not come back. -/
theorem gone_move (h : id ∉ ids hub.live) {move : Move} (hc : move.connects id = false) :
    id ∉ ids (hub.move move).1.live := by
  cases move with
  | stimulus outside =>
    cases outside with
    | connect other setup =>
      have hne : id ≠ other := Ne.symm (by simpa [Move.connects] using hc)
      intro hmem
      rcases mem_ids_insert.mp hmem with hid | hold
      · exact hne hid
      · exact h hold
    | deliver | streamEnd | readFault | allow =>
      intro hmem
      exact h (ids_modify hub _ _ ▸ hmem)
    | abort other =>
      intro hmem
      exact h ((List.Sublist.map Prod.fst List.filter_sublist).mem hmem)
    | signal | dropSender => exact h
  | advance other =>
    intro hmem
    exact h ((ids_advance_sublist hub other).mem hmem)

/-- A connection that is gone does nothing more. -/
theorem gone_play (h : id ∉ ids hub.live) {moves : List Move}
    (hc : ∀ move ∈ moves, move.connects id = false) :
    eventsOf id (hub.play moves).2 = [] := by
  induction moves generalizing hub with
  | nil => rfl
  | cons first rest ih =>
    obtain ⟨hfirst, hrest⟩ := List.forall_mem_cons.mp hc
    have hnow : eventsOf id (hub.move first).2 = [] := by
      cases first with
      | stimulus outside => rfl
      | advance other =>
        rw [Hub.move, eventsOf_advance]
        split
        · rename_i ho
          rw [← ho, lookup_eq_none_iff.mpr h]
        · rfl
    rw [play_cons, eventsOf_append, hnow, List.nil_append]
    exact ih (gone_move h hfirst) hrest

/-- Behind the move at which a connection goes, nothing happens on it. -/
theorem eventsOf_play_of_gone {first rest : List Move} {move : Move}
    (h : id ∉ ids ((hub.play first).1.move move).1.live)
    (hc : ∀ move ∈ rest, move.connects id = false) :
    eventsOf id (hub.play (first ++ move :: rest)).2 =
      eventsOf id (hub.play first).2 ++ eventsOf id ((hub.play first).1.move move).2 := by
  rw [play_append, eventsOf_append, play_cons, eventsOf_append, gone_play h hc, List.append_nil]

end Hub

end LineStore
