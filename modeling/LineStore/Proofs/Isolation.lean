import LineStore.Proofs.Agreement
import LineStore.Proofs.GlobalOrder

/-!
# Connections that share no key

Two connections whose lines are about different keys cannot tell whether the
other one is there.  The proof compares two runs, one with all connections and
one with a single one.

* `Hub.Stimulus.concerns` and `Hub.Move.concerns` pick what is for the single
  connection, or for all.
* `Hub.Separated` says which lines may be executed: those of the connection are
  about some keys, and those of the others are not.
* `Hub.settleAll_agree`: while all connections settle, the one does what it
  does alone.
* `Hub.eventsOf_play` carries this through schedules, and `Hub.Alone.run`
  through runs.
-/

namespace LineStore

/-! ## One connection of many -/

namespace Hub

open Connection

/-- The connections with a number, of which there is one at most. -/
def only (id : Nat) (live : List (Nat × Connection)) : List (Nat × Connection) :=
  live.filter fun entry => entry.1 = id

/-- Tells whether a stimulus is for the connection with a number, or for all. -/
def Stimulus.concerns (id : Nat) : Stimulus → Bool
  | connect other _ | deliver other _ | streamEnd other | readFault other _ | allow other _
  | abort other => other = id
  | signal _ | dropSender => true

/-- The lines of one connection are about the given keys only, and those of the
others are about other keys. -/
def Separated (keys : Bytes → Prop) (id : Nat) (lines : List (Nat × Bytes)) : Prop :=
  ∀ entry ∈ lines, ∀ key, Command.keyOf? entry.2 = some key → (keys key ↔ entry.1 = id)

variable {keys : Bytes → Prop} {id other : Nat} {shared shared' : Shared}
  {live : List (Nat × Connection)}

theorem only_cons (number : Nat) (connection : Connection) (live : List (Nat × Connection)) :
    only id ((number, connection) :: live) =
      if number = id then (number, connection) :: only id live else only id live := by
  unfold only
  rw [List.filter_cons]
  simp

theorem only_append (front live : List (Nat × Connection)) :
    only id (front ++ live) = only id front ++ only id live :=
  List.filter_append ..

theorem only_settled (number : Nat) (next? : Option Connection) :
    only id (next?.map fun next => (number, next)).toList =
      if number = id then (next?.map fun next => (number, next)).toList else [] := by
  cases next? with
  | none => simp [only]
  | some next => exact only_cons number next []

theorem Separated.own {events : List Event} {client : String}
    (h : Separated keys id (linesOf (events.map fun event => ⟨id, client, event⟩))) :
    Command.AllAbout keys (events.filterMap Event.line?) := by
  intro line hline key hkey
  rw [linesOf, gather_map] at h
  exact (h (id, line) (List.mem_map_of_mem hline) key hkey).mpr rfl

theorem Separated.others {events : List Event} {client : String} (ho : other ≠ id)
    (h : Separated keys id (linesOf (events.map fun event => ⟨other, client, event⟩))) :
    Command.AllAbout (fun key => ¬ keys key) (events.filterMap Event.line?) := by
  intro line hline key hkey hmem
  rw [linesOf, gather_map] at h
  exact ho ((h (other, line) (List.mem_map_of_mem hline) key hkey).mp hmem)

theorem separated_append {occurrences more : List Occurrence} :
    Separated keys id (linesOf (occurrences ++ more)) ↔
      Separated keys id (linesOf occurrences) ∧ Separated keys id (linesOf more) := by
  unfold linesOf Separated
  rw [gather_append, List.forall_mem_append]

/-- While all connections settle, the one with the number does what it does
alone. -/
theorem settleAll_agree (h : AgreeOn keys shared shared')
    (hkeys : Separated keys id (linesOf (settleAll shared live).2)) :
    eventsOf id (settleAll shared live).2 = eventsOf id (settleAll shared' (only id live)).2 ∧
      (settleAll shared' (only id live)).1.live = only id (settleAll shared live).1.live ∧
      AgreeOn keys (settleAll shared live).1.shared
        (settleAll shared' (only id live)).1.shared := by
  induction live generalizing shared shared' with
  | nil => exact ⟨rfl, rfl, h⟩
  | cons entry live ih =>
    obtain ⟨number, connection⟩ := entry
    rw [settleAll_cons] at hkeys ⊢
    obtain ⟨hnow, hlater⟩ := separated_append.mp hkeys
    dsimp only
    rw [only_cons, only_append, only_settled, eventsOf_append, eventsOf_map]
    by_cases hn : number = id
    · subst hn
      obtain ⟨hevents, hnext, hagree⟩ := h.settle hnow.own
      obtain ⟨hrest, hlive, hlast⟩ := ih hagree hlater
      simp only [if_pos, settleAll_cons, eventsOf_append, eventsOf_map, hrest, hlive, hevents,
        hnext]
      exact ⟨trivial, trivial, hlast⟩
    · simp only [if_neg hn, List.nil_append]
      exact ih (h.settle_other (hnow.others hn)) hlater

/-! ## Stimuli for one connection -/

theorem Ordered.only_eq (h : Ordered live) (id : Nat) :
    only id live = ((live.lookup id).map fun connection => (id, connection)).toList := by
  induction live with
  | nil => rfl
  | cons entry live ih =>
    obtain ⟨number, connection⟩ := entry
    obtain ⟨-, hrest⟩ := List.pairwise_cons.mp h
    rw [only_cons, lookup_cons]
    by_cases hn : number = id
    · subst hn
      have hnone : live.lookup number = none :=
        lookup_eq_none_iff.mpr (List.nodup_cons.mp h.nodup).1
      rw [if_pos rfl, if_pos rfl, ih hrest, hnone]
      rfl
    · rw [if_neg hn, if_neg (Ne.symm hn), ih hrest]

variable {hub hub' : Hub} {stimulus : Stimulus}

theorem lookup_apply_congr (h : hub'.live.lookup id = hub.live.lookup id)
    (hc : stimulus.concerns id = true) :
    (hub'.apply stimulus).live.lookup id = (hub.apply stimulus).live.lookup id := by
  cases stimulus with
  | connect => simp only [apply, lookup_insert, h]
  | deliver other | streamEnd other | readFault other | allow other =>
    obtain rfl : other = id := of_decide_eq_true hc
    simp only [apply, queue, lookup_modify, h]
  | abort => simp only [apply, lookup_filter, h]
  | signal | dropSender => exact h

theorem lookup_apply_other (hc : stimulus.concerns id = false) :
    (hub.apply stimulus).live.lookup id = hub.live.lookup id := by
  cases stimulus with
  | connect other setup =>
    rw [apply, lookup_insert, if_neg (Ne.symm (of_decide_eq_false hc))]
  | deliver | streamEnd | readFault | allow =>
    simp only [apply, queue, lookup_modify, if_neg (Ne.symm (of_decide_eq_false hc))]
  | abort other =>
    simp only [apply, lookup_filter, if_neg (Ne.symm (of_decide_eq_false hc))]
  | signal | dropSender => simp [Stimulus.concerns] at hc

/-- A stimulus for the one connection does to it what it does to it among the
others. -/
theorem only_apply (h : Ordered hub.live) (hc : stimulus.concerns id = true) :
    (Hub.apply ⟨shared, only id hub.live⟩ stimulus).live = only id (hub.apply stimulus).live := by
  rw [(h.apply stimulus).only_eq, h.only_eq]
  cases stimulus with
  | connect other setup =>
    obtain rfl : other = id := of_decide_eq_true hc
    simp only [apply, lookup_insert, if_pos]
    cases hub.live.lookup other <;> simp [insert]
  | deliver other | streamEnd other | readFault other | allow other =>
    obtain rfl : other = id := of_decide_eq_true hc
    simp only [apply, queue, lookup_modify, if_pos]
    cases hub.live.lookup other <;> simp [modify]
  | abort other =>
    obtain rfl : other = id := of_decide_eq_true hc
    simp only [apply, lookup_filter, if_pos]
    cases hub.live.lookup other <;> simp
  | signal | dropSender => rfl

/-! ## Schedules -/

/-- Tells whether a move is for the connection with a number, or for all. -/
def Move.concerns (id : Nat) : Move → Bool
  | .stimulus outside => outside.concerns id
  | .advance other => other = id

/-- A stimulus changes nothing that two shared states agree on. -/
theorem apply_agree (h : AgreeOn keys hub.shared hub'.shared)
    (stimulus : Stimulus) :
    AgreeOn keys (hub.apply stimulus).shared (hub'.apply stimulus).shared := by
  obtain ⟨hsignal, hstores⟩ := h
  cases stimulus <;>
    exact ⟨by simp only [Hub.apply, queue, modify, hsignal], hstores⟩

theorem apply_agree_other (h : AgreeOn keys hub.shared hub'.shared)
    (hc : stimulus.concerns id = false) :
    AgreeOn keys (hub.apply stimulus).shared hub'.shared := by
  cases stimulus with
  | connect | deliver | streamEnd | readFault | allow | abort => exact ⟨h.signal, h.stores⟩
  | signal | dropSender => simp [Stimulus.concerns] at hc

/-- A move for the connection does the same to it in both hubs. -/
theorem move_agree (h : AgreeOn keys hub.shared hub'.shared)
    (hlive : hub'.live.lookup id = hub.live.lookup id) {move : Move}
    (hc : move.concerns id = true) (hkeys : Separated keys id (linesOf (hub.move move).2)) :
    eventsOf id (hub.move move).2 = eventsOf id (hub'.move move).2 ∧
      (hub'.move move).1.live.lookup id = (hub.move move).1.live.lookup id ∧
      AgreeOn keys (hub.move move).1.shared (hub'.move move).1.shared := by
  cases move with
  | stimulus outside => exact ⟨rfl, lookup_apply_congr hlive hc, apply_agree h outside⟩
  | advance other =>
    obtain rfl : other = id := of_decide_eq_true hc
    simp only [Hub.move] at hkeys ⊢
    rw [eventsOf_advance, eventsOf_advance, lookup_advance, lookup_advance]
    unfold advance at hkeys ⊢
    simp only [if_pos, hlive]
    cases hl : hub.live.lookup other with
    | none => exact ⟨rfl, rfl, h⟩
    | some connection =>
      rw [hl] at hkeys
      obtain ⟨hown, hagree⟩ := h.step hkeys.own
      exact ⟨Progress.events_of_own hown, (Progress.next?_of_own hown).symm, hagree⟩

/-- A move for another connection changes nothing for this one. -/
theorem move_agree_other (h : AgreeOn keys hub.shared hub'.shared) {move : Move}
    (hc : move.concerns id = false) (hkeys : Separated keys id (linesOf (hub.move move).2)) :
    eventsOf id (hub.move move).2 = [] ∧
      (hub.move move).1.live.lookup id = hub.live.lookup id ∧
      AgreeOn keys (hub.move move).1.shared hub'.shared := by
  cases move with
  | stimulus outside => exact ⟨rfl, lookup_apply_other hc, apply_agree_other h hc⟩
  | advance other =>
    have ho : other ≠ id := of_decide_eq_false hc
    refine ⟨?_, ?_, ?_⟩
    · rw [Hub.move, eventsOf_advance, if_neg ho.symm]
    · rw [Hub.move, lookup_advance, if_neg ho.symm]
    · simp only [Hub.move] at hkeys ⊢
      unfold advance at hkeys ⊢
      cases hl : hub.live.lookup other with
      | none => exact h
      | some connection =>
        rw [hl] at hkeys
        exact h.step_other (hkeys.others ho)

/-- A schedule and its moves for one connection let this connection do the
same. -/
theorem eventsOf_play (h : AgreeOn keys hub.shared hub'.shared)
    (hlive : hub'.live.lookup id = hub.live.lookup id) {moves : List Move}
    (hkeys : Separated keys id (linesOf (hub.play moves).2)) :
    eventsOf id (hub.play moves).2 =
      eventsOf id (hub'.play (moves.filter (Move.concerns id))).2 := by
  induction moves generalizing hub hub' with
  | nil => rfl
  | cons first rest ih =>
    obtain ⟨hnow, hlater⟩ := separated_append.mp hkeys
    rw [play_cons, eventsOf_append]
    cases hc : first.concerns id with
    | true =>
      obtain ⟨hevents, hnext, hagree⟩ := move_agree h hlive hc hnow
      rw [List.filter_cons_of_pos hc, play_cons, eventsOf_append, hevents,
        ih hagree hnext hlater]
    | false =>
      obtain ⟨hnone, hnext, hagree⟩ := move_agree_other h hc hnow
      rw [List.filter_cons_of_neg (by simp [hc]), hnone, List.nil_append,
        ih hagree (hlive.trans hnext.symm) hlater]

/-! ## Runs -/

/-- The hubs of two runs, one with all connections and one with a single one of
them. -/
structure Alone (keys : Bytes → Prop) (id : Nat) (hub hub' : Hub) : Prop where
  agree : AgreeOn keys hub.shared hub'.shared
  ordered : Ordered hub.live
  live : hub'.live = only id hub.live
  resting : hub'.Resting

theorem Alone.step (h : Alone keys id hub hub') (hc : stimulus.concerns id = true)
    (hkeys : Separated keys id (linesOf (hub.step stimulus).2)) :
    eventsOf id (hub.step stimulus).2 = eventsOf id (hub'.step stimulus).2 ∧
      Alone keys id (hub.step stimulus).1 (hub'.step stimulus).1 := by
  obtain ⟨shared', live'⟩ := hub'
  obtain ⟨hagree, hordered, rfl, -⟩ := h
  obtain ⟨hevents, hlive, hlast⟩ := settleAll_agree (apply_agree hagree stimulus) hkeys
  rw [← only_apply hordered hc] at hevents hlive hlast
  exact ⟨hevents, hlast, hordered.step stimulus, hlive, resting_step _ _⟩

theorem Alone.step_other (h : Alone keys id hub hub') (hc : stimulus.concerns id = false)
    (hkeys : Separated keys id (linesOf (hub.step stimulus).2)) :
    eventsOf id (hub.step stimulus).2 = [] ∧ Alone keys id (hub.step stimulus).1 hub' := by
  obtain ⟨hevents, hlive, hlast⟩ := settleAll_agree (apply_agree_other h.agree hc) hkeys
  have hsame : only id (hub.apply stimulus).live = hub'.live := by
    rw [(h.ordered.apply stimulus).only_eq, lookup_apply_other hc, ← h.ordered.only_eq, h.live]
  rw [hsame, settleAll_of_resting h.resting] at hevents hlive hlast
  exact ⟨hevents, hlast, h.ordered.step stimulus, hlive, h.resting⟩

theorem Alone.run (h : Alone keys id hub hub') {script : List Stimulus}
    (hkeys : Separated keys id (linesOf (hub.run script).2.flatten)) :
    (∀ step ∈ script.zip (hub.run script).2,
        step.1.concerns id = false → eventsOf id step.2 = []) ∧
      ((script.zip (hub.run script).2).filter fun step => step.1.concerns id).map
          (fun step => eventsOf id step.2) =
        (hub'.run (script.filter (Stimulus.concerns id))).2.map (eventsOf id) := by
  induction script generalizing hub hub' with
  | nil => exact ⟨fun _ hmem => absurd hmem List.not_mem_nil, rfl⟩
  | cons stimulus rest ih =>
    obtain ⟨hnow, hlater⟩ := separated_append.mp hkeys
    cases hc : stimulus.concerns id with
    | true =>
      obtain ⟨hevents, hnext⟩ := h.step hc hnow
      obtain ⟨hsilent, hsame⟩ := ih hnext hlater
      refine ⟨List.forall_mem_cons.mpr ⟨?_, hsilent⟩, ?_⟩
      · simp [hc]
      · simp only [List.filter_cons, hc, if_true, run_cons, List.zip_cons_cons, List.map_cons,
          hevents, hsame]
    | false =>
      obtain ⟨hnone, hnext⟩ := h.step_other hc hnow
      obtain ⟨hsilent, hsame⟩ := ih hnext hlater
      refine ⟨List.forall_mem_cons.mpr ⟨fun _ => hnone, hsilent⟩, ?_⟩
      simp only [List.filter_cons, hc, Bool.false_eq_true, if_false, run_cons,
        List.zip_cons_cons, hsame]

/-! ## The main result -/

/-- Among the lines executed, no other connection's is about the key of a line
of the connection with the number. -/
def SharesNoKey (id : Nat) (lines : List (Nat × Bytes)) : Prop :=
  ∀ own ∈ lines, ∀ other ∈ lines, own.1 = id → other.1 ≠ id →
    Command.keyOf? own.2 = Command.keyOf? other.2 → Command.keyOf? own.2 = none

instance (id : Nat) (lines : List (Nat × Bytes)) : Decidable (SharesNoKey id lines) :=
  inferInstanceAs (Decidable (∀ own ∈ lines, ∀ other ∈ lines, own.1 = id → other.1 ≠ id →
    Command.keyOf? own.2 = Command.keyOf? other.2 → Command.keyOf? own.2 = none))

/-- The keys that the lines of one connection are about. -/
def keysOf (id : Nat) (lines : List (Nat × Bytes)) (key : Bytes) : Prop :=
  ∃ own ∈ lines, own.1 = id ∧ Command.keyOf? own.2 = some key

theorem SharesNoKey.separated {lines : List (Nat × Bytes)} (h : SharesNoKey id lines) :
    Separated (keysOf id lines) id lines := by
  intro entry hmem key hkey
  constructor
  · rintro ⟨own, hown, hid, hsame⟩
    by_contra ho
    have hnone := h own hown entry hmem hid ho (hsame.trans hkey.symm)
    exact absurd (hsame.symm.trans hnone) (by simp)
  · intro hid
    exact ⟨entry, hmem, hid, hkey⟩

theorem alone_new {store : Store} (h : store.KeysDistinct) (signal : Signal)
    (keys : Bytes → Prop) (id : Nat) :
    Alone keys id (Hub.new store signal) (Hub.new store signal) where
  agree := ⟨rfl, h, h, fun _ _ => rfl⟩
  ordered := ordered_new store signal
  live := rfl
  resting := resting_new store signal

/-- What a client can see: the bytes that its stream takes, and how its
connection ends. -/
def seenBy (id : Nat) (occurrences : List Occurrence) : Bytes × List Outcome :=
  (output occurrences id, (eventsOf id occurrences).filterMap Event.outcome?)

theorem seenBy_eq (id : Nat) (occurrences : List Occurrence) :
    seenBy id occurrences =
      ((eventsOf id occurrences).flatMap Event.output,
        (eventsOf id occurrences).filterMap Event.outcome?) := by
  rw [seenBy, output_eq]

/-- Connections that share no key do not notice each other.

In a run, a connection does the same as in the run in which only the stimuli
for it and for the signal happen.  After each of these it reads, executes and
sends the same, and ends in the same way if it ends, and after the others it
does nothing.  The same holds of every schedule.

All that is asked for is that no line executed for another connection is about
a key of its own lines.  Lines that are no request, and lines that are not
executed, are about no key. -/
theorem isolated {store : Store} (h : store.KeysDistinct) (signal : Signal) (id : Nat) :
    (∀ script : List Stimulus,
      let together := script.zip ((Hub.new store signal).run script).2
      let alone := ((Hub.new store signal).run (script.filter (Stimulus.concerns id))).2
      SharesNoKey id (linesOf ((Hub.new store signal).run script).2.flatten) →
        (∀ step ∈ together, step.1.concerns id = false → eventsOf id step.2 = []) ∧
          (together.filter fun step => step.1.concerns id).map
              (fun step => eventsOf id step.2) = alone.map (eventsOf id) ∧
          (together.filter fun step => step.1.concerns id).map
              (fun step => seenBy id step.2) = alone.map (seenBy id)) ∧
      ∀ moves : List Move,
        SharesNoKey id (linesOf ((Hub.new store signal).play moves).2) →
          eventsOf id ((Hub.new store signal).play moves).2 =
            eventsOf id ((Hub.new store signal).play (moves.filter (Move.concerns id))).2 := by
  constructor
  · intro script together alone hkeys
    obtain ⟨hsilent, hsame⟩ := (alone_new h signal _ id).run hkeys.separated
    refine ⟨hsilent, hsame, ?_⟩
    have hseen := congrArg
      (List.map fun events => (events.flatMap Event.output, events.filterMap Event.outcome?)) hsame
    simpa only [List.map_map, Function.comp_def, ← seenBy_eq] using hseen
  · intro moves hkeys
    exact eventsOf_play (alone_new h signal _ id).agree rfl hkeys.separated

/-- A client that stores and reads its own key, while another one on the same
store waits within a reply, sends a line that is too long, and is dropped. -/
theorem isolated_from_faults :
    let setup : Setup := ⟨"127.0.0.1:50000", 16, true, true, .unlimited⟩
    let stuck : Setup :=
      ⟨"127.0.0.1:50001", 16, true, true, { Sink.unlimited with allowance? := some 1 }⟩
    let script : List Stimulus :=
      [.connect 1 setup, .connect 2 stuck, .send 2 (Utf8.ofString "PUT b 2\nGET b\n"),
        .send 1 (Utf8.ofString "PUT a 1\nGET"), .abort 2, .connect 2 setup,
        .send 2 (Utf8.ofString "PUT b 3\nDELETE b b b b b b"), .send 1 (Utf8.ofString " a\n"),
        .streamEnd 1]
    let together := script.zip ((Hub.new .new (.new false)).run script).2
    (together.filter fun step => step.1.concerns 1).map (fun step => seenBy 1 step.2) =
      [([], []), (Utf8.ofString "OK\n", []), (Utf8.ofString "1\n", []),
        ([], [.failed .clientDisconnected])] := by
  intro setup stuck script together
  have hkeys : SharesNoKey 1 (linesOf ((Hub.new .new (.new false)).run script).2.flatten) := by
    decide +kernel
  obtain ⟨-, -, hseen⟩ :=
    (isolated (Store.keysDistinct_empty Store.spread) (.new false) 1).1 script hkeys
  exact hseen.trans (by decide +kernel)

end Hub

end LineStore
