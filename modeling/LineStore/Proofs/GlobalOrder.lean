import LineStore.Proofs.FlatMap
import LineStore.Proofs.Lives

/-!
# One order for all connections

Connections over one store execute their lines in some order, which the
schedule decides.  This module shows that nothing but this order matters: a
single map, given all executed lines one after another, makes the same replies
and is left with the same bindings.

* `Hub.linesOf` and `Hub.repliesOf` are the executed lines and the replies of
  all connections, in the order in which they happened.
* `executeLines_of_play` ties both to the store, move by move.
* The main result adds the single map, and what each connection contributes.
-/

namespace LineStore.Hub

open Connection

/-- What `read` finds in the events of all connections, each with the number
of its connection. -/
def gather {α : Type} (read : Event → Option α) (occurrences : List Occurrence) :
    List (Nat × α) :=
  occurrences.filterMap fun occurrence =>
    (read occurrence.event).map fun found => (occurrence.id, found)

def linesOf (occurrences : List Occurrence) : List (Nat × Bytes) :=
  gather Event.line? occurrences

def repliesOf (occurrences : List Occurrence) : List (Nat × Reply) :=
  gather Event.reply? occurrences

/-- The part of a sequence that belongs to one connection. -/
def restrict {α : Type} (id : Nat) (found : List (Nat × α)) : List α :=
  (found.filter fun entry => entry.1 = id).map Prod.snd

section Gather

variable {α : Type} {read : Event → Option α}

theorem gather_append (occurrences more : List Occurrence) :
    gather read (occurrences ++ more) = gather read occurrences ++ gather read more :=
  List.filterMap_append

theorem gather_map (id : Nat) (client : String) (events : List Event) :
    gather read (events.map fun event => ⟨id, client, event⟩) =
      (events.filterMap read).map fun found => (id, found) := by
  unfold gather
  rw [List.filterMap_map, List.map_filterMap]
  rfl

/-- Gathering from all connections and then looking at one is gathering from
that one. -/
theorem restrict_gather (id : Nat) (occurrences : List Occurrence) :
    restrict id (gather read occurrences) = (eventsOf id occurrences).filterMap read := by
  induction occurrences with
  | nil => rfl
  | cons occurrence occurrences ih =>
    unfold restrict gather eventsOf at ih ⊢
    rw [List.filterMap_cons, List.filterMap_cons]
    cases hread : read occurrence.event with
    | none =>
      by_cases hid : occurrence.id = id
      · simpa [hid, hread] using ih
      · simpa [hid] using ih
    | some found =>
      by_cases hid : occurrence.id = id
      · simpa [hid, hread] using ih
      · simpa [hid] using ih

end Gather

/-! ## The executed lines decide the replies and the store -/

theorem executeLines_of_advance (hub : Hub) (id : Nat) :
    Command.executeLines hub.shared.store ((linesOf (hub.advance id).2).map Prod.snd) =
        ((repliesOf (hub.advance id).2).map Prod.snd, (hub.advance id).1.shared.store) ∧
      (linesOf (hub.advance id).2).map Prod.fst =
        (repliesOf (hub.advance id).2).map Prod.fst := by
  unfold advance
  cases hub.live.lookup id with
  | none => exact ⟨rfl, rfl⟩
  | some connection =>
    have hlines := executeLines_of_step connection hub.shared
    have hlength := length_lines_of_step connection hub.shared
    simp only [linesOf, repliesOf, gather_map, List.map_map, Function.comp_def, List.map_id',
      List.map_const']
    exact ⟨hlines, by rw [hlength]⟩

theorem store_of_apply (hub : Hub) (stimulus : Stimulus) :
    (hub.apply stimulus).shared.store = hub.shared.store := by
  cases stimulus <;> rfl

/-- Whatever the schedule, the store executes the lines one after another. -/
theorem executeLines_of_play (hub : Hub) (moves : List Move) :
    Command.executeLines hub.shared.store ((linesOf (hub.play moves).2).map Prod.snd) =
        ((repliesOf (hub.play moves).2).map Prod.snd, (hub.play moves).1.shared.store) ∧
      (linesOf (hub.play moves).2).map Prod.fst =
        (repliesOf (hub.play moves).2).map Prod.fst := by
  induction moves generalizing hub with
  | nil => exact ⟨rfl, rfl⟩
  | cons first rest ih =>
    have hnow : Command.executeLines hub.shared.store
        ((linesOf (hub.move first).2).map Prod.snd) =
          ((repliesOf (hub.move first).2).map Prod.snd, (hub.move first).1.shared.store) ∧
        (linesOf (hub.move first).2).map Prod.fst =
          (repliesOf (hub.move first).2).map Prod.fst := by
      cases first with
      | stimulus outside => exact ⟨congrArg ([], ·) (store_of_apply hub outside).symm, rfl⟩
      | advance id => exact executeLines_of_advance hub id
    obtain ⟨hlater, hids⟩ := ih (hub.move first).1
    simp only [linesOf, repliesOf] at hnow hlater hids ⊢
    simp only [play_cons, gather_append, List.map_append, Command.executeLines_append, hnow.1,
      hnow.2, hlater, hids]
    exact ⟨trivial, trivial⟩

/-! ## The main result -/

/-- Lines that were executed stay executed, in their places. -/
theorem linesOf_prefix (hub : Hub) (moves more : List Move) :
    linesOf (hub.play moves).2 <+: linesOf (hub.play (moves ++ more)).2 := by
  unfold linesOf
  rw [play_append, gather_append]
  exact List.prefix_append _ _

/-- The connections of a hub act as one.

Every run of a script is one of the schedules, and for every schedule there is
one sequence of executed lines that goes on and on.

* A single map, given these lines, makes the replies that the connections made,
  and is what the store now holds.
* As long as no other client takes its number, a connection has of this
  sequence the first lines that were sent to it, in their order, and its
  client's stream has taken the replies to them in the same order. -/
theorem linearizable {store : Store} (h : store.KeysDistinct) (signal : Signal) :
    (∀ script : List Stimulus, ∃ moves : List Move,
      moves.filterMap Move.stimulus? = script ∧
        (Hub.new store signal).play moves =
          (((Hub.new store signal).run script).1,
            ((Hub.new store signal).run script).2.flatten)) ∧
      ∀ moves : List Move,
        let hub := ((Hub.new store signal).play moves).1
        let occurrences := ((Hub.new store signal).play moves).2
        FlatMap.answerLines store.get? ((linesOf occurrences).map Prod.snd) =
            ((repliesOf occurrences).map Prod.snd, hub.shared.store.get?) ∧
          (linesOf occurrences).map Prod.fst = (repliesOf occurrences).map Prod.fst ∧
          (∀ before during : List Move, moves = before ++ during →
            linesOf ((Hub.new store signal).play before).2 <+: linesOf occurrences) ∧
          ∀ (before during : List Move) (id : Nat) (setup : Setup),
            moves = before ++ .stimulus (.connect id setup) :: during →
            (∀ move ∈ during, move.connects id = false) →
            let earlier := ((Hub.new store signal).play before).2
            ∃ (since : List (Nat × Bytes)) (replies : List (Nat × Reply)) (taken : Bytes),
              linesOf occurrences = linesOf earlier ++ since ∧
                repliesOf occurrences = repliesOf earlier ++ replies ∧
                output occurrences id = output earlier id ++ taken ∧
                restrict id since <+: (Bytes.cutLines (sentTo id during)).1 ∧
                AnsweredInOrder (restrict id replies) taken := by
  refine ⟨fun script => run_eq_play (ordered_new store signal) script, ?_⟩
  intro moves
  obtain ⟨hlines, hids⟩ := executeLines_of_play (Hub.new store signal) moves
  refine ⟨?_, hids, ?_, ?_⟩
  · have hmap := (Command.executeLines_eq_answerLines h
      ((linesOf ((Hub.new store signal).play moves).2).map Prod.snd)).1
    rw [show Command.executeLines store _ = _ from hlines] at hmap
    exact hmap.symm
  · rintro before during rfl
    exact linesOf_prefix _ before during
  · -- the life of the connection begins behind what happened before it came
    rintro before during id setup rfl hc earlier
    let opened := ((Hub.new store signal).play before).1.apply (.connect id setup)
    have hwhole : ((Hub.new store signal).play
        (before ++ .stimulus (.connect id setup) :: during)).2 =
          earlier ++ (opened.play during).2 := by
      rw [play_append, play_cons]
      rfl
    have hlife := life_of_play ((Hub.new store signal).play before).1 id setup hc
    refine ⟨linesOf (opened.play during).2, repliesOf (opened.play during).2,
      output (opened.play during).2 id, ?_, ?_, ?_, ?_, ?_⟩
    · rw [hwhole]
      exact gather_append _ _
    · rw [hwhole]
      exact gather_append _ _
    · rw [hwhole]
      exact List.flatMap_append
    · have hlines := hlife.lines_prefix rfl
      rwa [← restrict_gather] at hlines
    · have hanswered := hlife.answeredInOrder rfl
      rwa [← restrict_gather, ← output_eq] at hanswered

/-- Two clients on one empty store: the second one's line is executed behind
the first one's, and gets the value that the first one has stored.  The bytes
behind its line, which no newline has ended, are not executed. -/
theorem linearizable_two_clients :
    let setup : Setup := ⟨"127.0.0.1:50000", 64, true, true, .unlimited⟩
    let before : List Move :=
      [.stimulus (.connect 1 setup), .advance 1,
        .stimulus (.send 1 (Utf8.ofString "PUT key value\n"))]
    let during : List Move :=
      [.advance 2, .stimulus (.send 2 (Utf8.ofString "GET key\nDEL")), .advance 1, .advance 2,
        .advance 1, .advance 2, .advance 2, .stimulus (.abort 1)]
    let occurrences := ((Hub.new .new (.new false)).play
      (before ++ .stimulus (.connect 2 setup) :: during)).2
    let executed : List (Nat × Bytes) :=
      [(1, Utf8.ofString "PUT key value"), (2, Utf8.ofString "GET key")]
    let replies : List (Nat × Reply) := [(1, .ok), (2, .value (Utf8.ofString "value"))]
    linesOf occurrences = executed ∧ repliesOf occurrences = replies ∧
      output occurrences 2 = Utf8.ofString "value\n" ∧
      (FlatMap.answerLines (Store.new).get? (executed.map Prod.snd)).1 = replies.map Prod.snd ∧
      restrict 2 executed <+: [Utf8.ofString "GET key"] ∧
      AnsweredInOrder (restrict 2 replies) (output occurrences 2) := by
  intro setup before during occurrences executed replies
  have hlines : linesOf occurrences = executed := by decide +kernel
  have hreplies : repliesOf occurrences = replies := by decide +kernel
  have hdistinct : (Store.new).KeysDistinct := Store.keysDistinct_empty Store.spread
  obtain ⟨hmap, -, -, hconnection⟩ := (linearizable hdistinct (.new false)).2
    (before ++ .stimulus (.connect 2 setup) :: during)
  obtain ⟨since, later, taken, hsince, hlater, htaken, hprefix, hanswered⟩ :=
    hconnection before during 2 setup rfl (by decide)
  -- nothing was executed before the second client came
  obtain ⟨hnone, hunanswered, hunsent⟩ :
      linesOf ((Hub.new .new (.new false)).play before).2 = [] ∧
        repliesOf ((Hub.new .new (.new false)).play before).2 = [] ∧
        output ((Hub.new .new (.new false)).play before).2 2 = [] := by decide +kernel
  obtain rfl : executed = since :=
    hlines.symm.trans (hsince.trans (congrArg (· ++ since) hnone))
  obtain rfl : replies = later :=
    hreplies.symm.trans (hlater.trans (congrArg (· ++ later) hunanswered))
  obtain rfl : output occurrences 2 = taken :=
    htaken.trans (congrArg (· ++ taken) hunsent)
  have hcut : (Bytes.cutLines (sentTo 2 during)).1 = [Utf8.ofString "GET key"] := by
    decide +kernel
  rw [hcut] at hprefix
  have hreplied : (FlatMap.answerLines (Store.new).get? ((linesOf occurrences).map Prod.snd)).1 =
      (repliesOf occurrences).map Prod.snd := by rw [hmap]
  rw [hlines, hreplies] at hreplied
  exact ⟨hlines, hreplies, by decide +kernel, hreplied, hprefix, hanswered⟩

end LineStore.Hub
