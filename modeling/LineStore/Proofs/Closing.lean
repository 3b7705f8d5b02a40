import LineStore.Proofs.Draining

/-!
# Graceful shutdown

The signal ends the connections that follow it, and nothing that they have
executed stays unanswered.

* `Hub.Lived` says that every connection has a life behind it, so that the
  invariants of lives hold in all states of a run.
* `Hub.drains_run` follows a connection that was within a reply when the signal
  came through any script that leaves the signal and the connection alone.
* The main result adds the connections that were not within a reply, and those
  that were closed at another time.
-/

namespace LineStore.Hub

open Connection

variable {hub : Hub} {id : Nat} {now : Connection} {stimulus : Stimulus}

/-! ## Connections of a run -/

/-- Every live connection has a life behind it. -/
def Lived (hub : Hub) : Prop :=
  ∀ id connection, hub.live.lookup id = some connection →
    ∃ (setup : Setup) (sent : Bytes) (events : List Event),
      Life setup.connection sent events (some connection)

theorem lived_new (store : Store) (signal : Signal) : (Hub.new store signal).Lived :=
  fun _ _ h => nomatch h

theorem Lived.move (h : hub.Lived) (move : Move) : (hub.move move).1.Lived := by
  intro id connection hl
  cases hc : move.connects id with
  | true =>
    unfold Move.connects at hc
    split at hc
    · rename_i other setup
      obtain rfl : other = id := of_decide_eq_true hc
      simp only [Hub.move, apply, lookup_insert, if_pos, Option.some.injEq] at hl
      obtain rfl := hl
      exact ⟨setup, [], [], .opens⟩
    · exact Bool.noConfusion hc
  | false =>
    cases hold : hub.live.lookup id with
    | none =>
      have hgone := gone_move (lookup_eq_none_iff.mp hold) hc
      rw [lookup_eq_none_iff.mpr hgone] at hl
      exact absurd hl (by simp)
    | some before =>
      obtain ⟨setup, sent, events, hlife⟩ := h id before hold
      have hnext := life_move (hold.symm ▸ hlife) hc
      rw [hl] at hnext
      exact ⟨setup, _, _, hnext⟩

theorem Lived.play (h : hub.Lived) (moves : List Move) : (hub.play moves).1.Lived := by
  induction moves generalizing hub with
  | nil => exact h
  | cons first rest ih => exact ih (h.move first)

theorem lived_run (store : Store) (signal : Signal) (script : List Stimulus) :
    ((Hub.new store signal).run script).1.Lived := by
  obtain ⟨moves, -, hplay⟩ := run_eq_play (ordered_new store signal) script
  have hlived := (lived_new store signal).play moves
  rwa [hplay] at hlived

/-- A schedule connects no other client if its stimuli do not. -/
theorem connects_of_stimuli {moves : List Move} {script : List Stimulus}
    (h : moves.filterMap Move.stimulus? = script)
    (hc : ∀ stimulus ∈ script, (Move.stimulus stimulus).connects id = false) :
    ∀ move ∈ moves, move.connects id = false := by
  intro move hmem
  cases move with
  | advance other => rfl
  | stimulus outside => exact hc outside (h ▸ List.mem_filterMap.mpr ⟨_, hmem, rfl⟩)

theorem mem_of_lookup {live : List (Nat × Connection)} (h : live.lookup id = some now) :
    (id, now) ∈ live := by
  obtain ⟨front, rest, rfl, -⟩ := List.lookup_eq_some_iff.mp h
  exact List.mem_append_right _ List.mem_cons_self

theorem unsignalled_connection (setup : Setup) :
    setup.connection.listener.signalled = false := by
  show (if setup.attached then Listener.new else .never).signalled = false
  split <;> rfl

theorem attached_connection (setup : Setup) :
    setup.connection.listener.attached = setup.attached := by
  show (if setup.attached then Listener.new else .never).attached = setup.attached
  split <;> simp_all [Listener.new, Listener.never]

theorem Lived.follows (h : hub.Lived) (hl : hub.live.lookup id = some now)
    (ha : now.listener.attached = true) (hb : now.Blocked) : now.Follows := by
  obtain ⟨setup, sent, events, hlife⟩ := h id now hl
  exact ⟨ha, hb.ne_fresh, (hlife.latched (unsignalled_connection setup) now rfl).1⟩

theorem Resting.blocked (h : hub.Resting) (hv : hub.shared.signal.value = true)
    {entry : Nat × Connection} (hmem : entry ∈ hub.live)
    (ha : entry.2.listener.attached = true) : entry.2.Blocked := by
  refine blocked_of_waits (h entry hmem) ?_
  rw [Listener.hears, ha, hv]
  rfl

/-! ## Stimuli that leave a connection alone -/

/-- Tells whether a stimulus neither takes the signal back nor drops the
connection with a number. -/
def Stimulus.spares (id : Nat) : Stimulus → Bool
  | connect other _ | abort other => other ≠ id
  | signal value => value
  | _ => true

theorem value_apply (hv : hub.shared.signal.value = true) (hs : stimulus.spares id = true) :
    (hub.apply stimulus).shared.signal.value = true := by
  cases stimulus with
  | signal value =>
    obtain rfl : value = true := hs
    simp only [apply, Signal.send]
    split
    · rfl
    · exact hv
  | _ => exact hv

theorem connects_of_spares (hs : stimulus.spares id = true) :
    (Move.stimulus stimulus).connects id = false := by
  cases stimulus with
  | connect other setup => simpa [Move.connects, Stimulus.spares] using hs
  | _ => rfl

theorem draining_arrivals (h : now.Follows) (arrivals : List Arrival) :
    Draining now [] { now with arrivals } :=
  { draining_refl h with
    follows := ⟨h.attached, h.started, h.latched⟩ }

theorem draining_allowance (h : now.Follows) (allowance? : Option Nat) :
    Draining now [] { now with sink := { now.sink with allowance? } } :=
  { draining_refl h with
    follows := ⟨h.attached, h.started, h.latched⟩
    spent := ⟨rfl, rfl, rfl, (Sink.spent_refl now.sink).room, fun _ => rfl⟩ }

theorem exists_draining_modify (h : now.Follows) (hl : hub.live.lookup id = some now)
    (other : Nat) {change : Connection → Connection} (hchange : Draining now [] (change now)) :
    ∃ next, (hub.modify other change).live.lookup id = some next ∧ Draining now [] next := by
  rw [lookup_modify]
  by_cases ho : id = other
  · subst ho
    rw [if_pos rfl, hl]
    exact ⟨change now, rfl, hchange⟩
  · rw [if_neg ho]
    exact ⟨now, hl, draining_refl h⟩

/-- What arrives for a connection, and what its client's stream takes from now
on, is no part of what it still does under the signal. -/
theorem exists_draining_apply (h : now.Follows) (hl : hub.live.lookup id = some now)
    (hs : stimulus.spares id = true) :
    ∃ next, (hub.apply stimulus).live.lookup id = some next ∧ Draining now [] next := by
  cases stimulus with
  | connect other setup =>
    refine ⟨now, ?_, draining_refl h⟩
    rw [apply, lookup_insert, if_neg (Ne.symm (of_decide_eq_true hs)), hl]
  | deliver other | streamEnd other | readFault other =>
    exact exists_draining_modify h hl other (draining_arrivals h _)
  | allow other => exact exists_draining_modify h hl other (draining_allowance h _)
  | abort other =>
    refine ⟨now, ?_, draining_refl h⟩
    simp only [apply]
    rw [lookup_filter, if_neg (Ne.symm (of_decide_eq_true hs)), hl]
  | signal | dropSender => exact ⟨now, hl, draining_refl h⟩

/-! ## Scripts that leave a connection alone -/

theorem drains_step (ho : Ordered hub.live) (hv : hub.shared.signal.value = true)
    (hl : hub.live.lookup id = some now) (h : now.Follows) (hs : stimulus.spares id = true) :
    Drains now (eventsOf id (hub.step stimulus).2) ((hub.step stimulus).1.live.lookup id) := by
  obtain ⟨next, hnext, hdraining⟩ := exists_draining_apply h hl hs
  obtain ⟨shared', hsignal, hlookup, hevents⟩ :=
    exists_settle_of_settleAll (hub.apply stimulus).shared (ho.apply stimulus) hnext
  have hsettle := drains_settle hdraining.follows (hsignal ▸ value_apply hv hs)
  rw [← hlookup, ← hevents] at hsettle
  exact hdraining.drains hsettle

theorem value_step (hv : hub.shared.signal.value = true) (hs : stimulus.spares id = true) :
    (hub.step stimulus).1.shared.signal.value = true := by
  have hsignal := signal_settleAll (hub.apply stimulus).shared (hub.apply stimulus).live
  exact hsignal ▸ value_apply hv hs

/-- A connection that has ended stays away, and does nothing more. -/
theorem gone_run (h : id ∉ ids hub.live) {script : List Stimulus}
    (hs : ∀ stimulus ∈ script, stimulus.spares id = true) :
    (hub.run script).1.live.lookup id = none ∧ eventsOf id (hub.run script).2.flatten = [] := by
  induction script generalizing hub with
  | nil => exact ⟨lookup_eq_none_iff.mpr h, rfl⟩
  | cons stimulus rest ih =>
    obtain ⟨hfirst, hrest⟩ := List.forall_mem_cons.mp hs
    have happly : id ∉ ids (hub.apply stimulus).live :=
      gone_move h (connects_of_spares hfirst)
    have hstep : id ∉ ids (hub.step stimulus).1.live := fun hmem =>
      happly ((ids_settleAll_sublist _ _).mem hmem)
    obtain ⟨hgone, hnone⟩ := ih hstep hrest
    refine ⟨hgone, ?_⟩
    rw [run_cons, List.flatten_cons, eventsOf_append, hnone, List.append_nil]
    exact eventsOf_settleAll happly

theorem drains_run (ho : Ordered hub.live) (hv : hub.shared.signal.value = true)
    (hl : hub.live.lookup id = some now) (h : now.Follows) (hb : now.Blocked)
    {script : List Stimulus} (hs : ∀ stimulus ∈ script, stimulus.spares id = true) :
    Drains now (eventsOf id (hub.run script).2.flatten) ((hub.run script).1.live.lookup id) := by
  induction script generalizing hub now with
  | nil =>
    rw [show (hub.run []).1.live.lookup id = some now from hl]
    exact ⟨draining_refl h, hb⟩
  | cons stimulus rest ih =>
    obtain ⟨hfirst, hrest⟩ := List.forall_mem_cons.mp hs
    have hstep := drains_step ho hv hl h hfirst
    rw [run_cons, List.flatten_cons, eventsOf_append]
    cases hnext : (hub.step stimulus).1.live.lookup id with
    | some next =>
      rw [hnext] at hstep
      obtain ⟨hdraining, hblocked⟩ := hstep
      exact hdraining.drains
        (ih (ho.step stimulus) (value_step hv hfirst) hnext hdraining.follows hblocked hrest)
    | none =>
      rw [hnext] at hstep
      obtain ⟨hgone, hnone⟩ := gone_run (lookup_eq_none_iff.mp hnext) hrest
      rw [hgone, hnone, List.append_nil]
      exact hstep

theorem value_run (hv : hub.shared.signal.value = true) {script : List Stimulus}
    (hs : ∀ stimulus ∈ script, stimulus.spares id = true) :
    (hub.run script).1.shared.signal.value = true := by
  induction script generalizing hub with
  | nil => exact hv
  | cons stimulus rest ih =>
    obtain ⟨hfirst, hrest⟩ := List.forall_mem_cons.mp hs
    exact ih (value_step hv hfirst) hrest

/-- A connection ends at once when its client's stream takes everything
again. -/
theorem lookup_step_allow (ho : Ordered hub.live) (hv : hub.shared.signal.value = true)
    (hfollows : ∀ now, hub.live.lookup id = some now → now.Follows) :
    (hub.step (.allow id none)).1.live.lookup id = none := by
  cases hl : hub.live.lookup id with
  | none =>
    have happly : id ∉ ids (hub.move (.stimulus (.allow id none))).1.live :=
      gone_move (lookup_eq_none_iff.mp hl) rfl
    exact lookup_eq_none_iff.mpr fun hmem => happly ((ids_settleAll_sublist _ _).mem hmem)
  | some now =>
    have happly : (hub.apply (.allow id none)).live.lookup id =
        some { now with sink := { now.sink with allowance? := none } } := by
      simp only [apply, lookup_modify, if_pos, hl, Option.map_some]
    obtain ⟨shared', hsignal, hlookup, -⟩ := exists_settle_of_settleAll
      (hub.apply (.allow id none)).shared (ho.apply (.allow id none)) happly
    have hfree := (draining_allowance (hfollows now hl) none).follows
    exact hlookup.trans (settle_of_allowance hfree (hsignal ▸ hv) rfl)

/-! ## The main result -/

/-- With room for one byte less, the stream takes a part of the second reply, and the
next write fails. -/
example :
    let fault : IOFault := ⟨.brokenPipe, "broken pipe"⟩
    let sink : Sink := ⟨none, some 4, some fault, some fault, some 1, 2⟩
    let setup : Setup := ⟨"127.0.0.1:50000", 64, true, true, sink⟩
    let before : List Stimulus :=
      [.connect 1 setup, .send 1 (Utf8.ofString "PUT k v\nGET k\nDELETE"), .signal true]
    let hub := ((Hub.new .new (.new false)).run before).1
    let occurrences := (hub.run [.allow 1 none]).2.flatten
    output occurrences 1 = Utf8.ofString "K\nv" ∧
      endings occurrences = [(1, true, .failed (.io fault))] := by
  decide +kernel

end LineStore.Hub
