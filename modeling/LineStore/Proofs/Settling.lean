import LineStore.Proofs.Lives

/-!
# Settled connections

After a stimulus every connection goes on until it waits or ends.  This module
is about the states in which all have done so, which are the states between
the stimuli of a run.

* `Connection.settle_induction` is the induction along a run of steps.
* `Connection.step_of_settle`: a connection that has settled waits.  It goes on
  waiting whatever the others do, because only the signal and what is its own
  can make it go on.
* `Hub.Resting` says that all connections of a hub wait.  `Hub.resting_step`
  and `Hub.resting_run` say that all states between stimuli are such.
* `Hub.exists_settle_of_settleAll` finds the run of one connection among those
  of all.
* `Hub.run_cons_eq_play` is the schedule behind a run, from its first stimulus
  on.
-/

namespace LineStore

namespace Connection

variable {connection : Connection} {shared shared' : Shared}

/-- What holds of a connection that waits or ends at once, and what a step
hands on, holds of the whole run of steps. -/
theorem settle_induction {motive : Connection → Shared → Settled → Prop}
    (waits : ∀ connection shared, connection.step shared = .waits →
      motive connection shared ⟨shared, some connection, []⟩)
    (ends : ∀ connection shared nextShared events,
      connection.step shared = .ends nextShared events →
        motive connection shared ⟨nextShared, none, events⟩)
    (goes : ∀ connection shared nextShared next events,
      connection.step shared = .goes nextShared next events →
        motive next nextShared (next.settle nextShared) →
          motive connection shared
            ⟨(next.settle nextShared).shared, (next.settle nextShared).connection?,
              events ++ (next.settle nextShared).events⟩)
    (connection : Connection) (shared : Shared) :
    motive connection shared (connection.settle shared) := by
  induction hw : connection.work using Nat.strongRecOn generalizing connection shared with
  | ind work ih =>
    cases hstep : connection.step shared with
    | waits =>
      rw [settle_of_waits hstep]
      exact waits connection shared hstep
    | ends nextShared events =>
      rw [settle_of_ends hstep]
      exact ends connection shared nextShared events hstep
    | goes nextShared next events =>
      rw [settle_of_goes hstep]
      exact goes connection shared nextShared next events hstep
        (ih next.work (hw ▸ work_lt_of_goes hstep) next nextShared rfl)

theorem signal_of_step (connection : Connection) (shared : Shared) :
    ((connection.step shared).shared shared).signal = shared.signal := by
  have ht := transition_step connection shared
  generalize connection.step shared = progress at ht
  cases ht <;> rfl

/-- Connections do nothing to the signal. -/
theorem signal_settle (connection : Connection) (shared : Shared) :
    (connection.settle shared).shared.signal = shared.signal := by
  induction connection, shared using settle_induction with
  | waits => rfl
  | ends connection shared nextShared events hstep =>
    have hsignal := signal_of_step connection shared
    rwa [hstep] at hsignal
  | goes connection shared nextShared next events hstep ih =>
    have hsignal := signal_of_step connection shared
    rw [hstep] at hsignal
    exact ih.trans hsignal

theorem step_of_settle (connection : Connection) (shared : Shared) :
    ∀ next, (connection.settle shared).connection? = some next →
      next.step (connection.settle shared).shared = .waits := by
  induction connection, shared using settle_induction with
  | waits connection shared hstep =>
    rintro next hnext
    obtain rfl := Option.some.inj hnext
    exact hstep
  | ends => simp
  | goes _ _ _ _ _ _ ih => exact ih

/-- A connection that waits is not woken by what happens to the store. -/
theorem step_waits_of_signal (h : connection.step shared = .waits)
    (hs : shared'.signal = shared.signal) : connection.step shared' = .waits := by
  have ht := transition_step connection shared
  rw [h] at ht
  cases ht with
  | idles hr ha =>
    simp [step, hr.phase, hr.noLine, readMore, hr.unsignalled, Nat.not_lt.mpr hr.short,
      Listener.poll, hs, hr.undisturbed, read, ha]
  | stalls hp hw ht => simp [step, hp, sendRest, hw, ht]

end Connection

namespace Hub

open Connection

/-- All connections of a hub wait. -/
def Resting (hub : Hub) : Prop :=
  ∀ entry ∈ hub.live, entry.2.step hub.shared = .waits

variable {hub : Hub} {live : List (Nat × Connection)}

theorem settleAll_cons (shared : Shared) (number : Nat) (connection : Connection)
    (live : List (Nat × Connection)) :
    settleAll shared ((number, connection) :: live) =
      (⟨(settleAll (connection.settle shared).shared live).1.shared,
          ((connection.settle shared).connection?.map fun next => (number, next)).toList ++
            (settleAll (connection.settle shared).shared live).1.live⟩,
        (connection.settle shared).events.map (fun event => ⟨number, connection.client, event⟩) ++
          (settleAll (connection.settle shared).shared live).2) :=
  rfl

theorem signal_settleAll (shared : Shared) (live : List (Nat × Connection)) :
    (settleAll shared live).1.shared.signal = shared.signal := by
  induction live generalizing shared with
  | nil => rfl
  | cons entry live ih => exact (ih _).trans (signal_settle _ _)

theorem resting_settleAll (shared : Shared) (live : List (Nat × Connection)) :
    (settleAll shared live).1.Resting := by
  induction live generalizing shared with
  | nil => exact fun _ hmem => absurd hmem List.not_mem_nil
  | cons entry live ih =>
    obtain ⟨id, connection⟩ := entry
    intro settled hmem
    rcases List.mem_append.mp hmem with hfirst | hrest
    · -- the others settle after it, and leave it waiting
      obtain ⟨next, hnext, rfl⟩ := Option.map_eq_some_iff.mp (Option.mem_toList.mp hfirst)
      exact step_waits_of_signal (step_of_settle connection shared next hnext)
        (signal_settleAll _ live)
    · exact ih _ settled hrest

theorem resting_new (store : Store) (signal : Signal) : (Hub.new store signal).Resting :=
  fun _ hmem => absurd hmem List.not_mem_nil

theorem resting_step (hub : Hub) (stimulus : Stimulus) : (hub.step stimulus).1.Resting :=
  resting_settleAll _ _

theorem resting_run (h : hub.Resting) (script : List Stimulus) : (hub.run script).1.Resting := by
  induction script generalizing hub with
  | nil => exact h
  | cons stimulus rest ih => exact ih (resting_step hub stimulus)

/-- Connections that wait are left as they are. -/
theorem settleAll_of_resting {shared : Shared} (h : Resting ⟨shared, live⟩) :
    settleAll shared live = (⟨shared, live⟩, []) := by
  induction live with
  | nil => rfl
  | cons entry live ih =>
    obtain ⟨hfirst, hrest⟩ := List.forall_mem_cons.mp h
    simp only [settleAll, settle_of_waits hfirst, ih hrest]
    rfl

/-! ## One of the connections -/

variable {id : Nat} {shared : Shared}

theorem ids_settleAll_sublist (shared : Shared) (live : List (Nat × Connection)) :
    (ids (settleAll shared live).1.live).Sublist (ids live) := by
  induction live generalizing shared with
  | nil => exact List.Sublist.slnil
  | cons entry live ih =>
    obtain ⟨number, connection⟩ := entry
    have hrest := ih (connection.settle shared).shared
    rw [settleAll_cons]
    cases (connection.settle shared).connection? with
    | none => exact hrest.cons number
    | some next => exact hrest.cons_cons number

theorem eventsOf_settleAll (h : id ∉ ids live) :
    eventsOf id (settleAll shared live).2 = [] := by
  induction live generalizing shared with
  | nil => rfl
  | cons entry live ih =>
    obtain ⟨number, connection⟩ := entry
    obtain ⟨hn, hrest⟩ := not_or.mp (mt List.mem_cons.mpr h)
    rw [settleAll_cons, eventsOf_append, eventsOf_map, if_neg (Ne.symm hn), ih hrest]
    rfl

/-- While all connections settle, each of them does so, in a shared state with
the same signal. -/
theorem exists_settle_of_settleAll (shared : Shared) {connection : Connection}
    (h : Ordered live) (hl : live.lookup id = some connection) :
    ∃ shared' : Shared, shared'.signal = shared.signal ∧
      (settleAll shared live).1.live.lookup id = (connection.settle shared').connection? ∧
      eventsOf id (settleAll shared live).2 = (connection.settle shared').events := by
  induction live generalizing shared with
  | nil => exact absurd hl (by simp)
  | cons entry live ih =>
    obtain ⟨number, other⟩ := entry
    have hids := List.nodup_cons.mp h.nodup
    rw [lookup_cons] at hl
    rw [settleAll_cons, eventsOf_append, eventsOf_map, List.lookup_append]
    split at hl
    · rename_i hid
      subst hid
      obtain rfl := Option.some.inj hl
      refine ⟨shared, rfl, ?_, ?_⟩
      · have hnone : (settleAll (other.settle shared).shared live).1.live.lookup id = none :=
          lookup_eq_none_iff.mpr fun hmem => hids.1 ((ids_settleAll_sublist _ _).mem hmem)
        rw [hnone]
        cases (other.settle shared).connection? <;> simp
      · rw [if_pos rfl, eventsOf_settleAll hids.1, List.append_nil]
    · rename_i hid
      obtain ⟨shared', hsignal, hnext, hevents⟩ := ih _ (List.pairwise_cons.mp h).2 hl
      refine ⟨shared', hsignal.trans (signal_settle other shared), ?_, ?_⟩
      · rw [hnext]
        cases (other.settle shared).connection? with
        | none => rfl
        | some next => simp [lookup_cons, hid]
      · rw [if_neg (Ne.symm hid), hevents, List.nil_append]

/-! ## Runs as schedules -/

theorem run_cons (hub : Hub) (stimulus : Stimulus) (rest : List Stimulus) :
    hub.run (stimulus :: rest) =
      (((hub.step stimulus).1.run rest).1,
        (hub.step stimulus).2 :: ((hub.step stimulus).1.run rest).2) :=
  rfl

/-- A stimulus and what it leads to are a schedule with this stimulus. -/
theorem step_eq_play (h : Ordered hub.live) (stimulus : Stimulus) :
    ∃ moves : List Move, moves.filterMap Move.stimulus? = [] ∧
      (hub.apply stimulus).play moves = hub.step stimulus :=
  exists_play_settleAll (hub.apply stimulus).shared [] (h.apply stimulus)

theorem Ordered.step (h : Ordered hub.live) (stimulus : Stimulus) :
    Ordered (hub.step stimulus).1.live := by
  obtain ⟨moves, -, hplay⟩ := step_eq_play h stimulus
  exact hplay ▸ (h.apply stimulus).play moves

theorem Ordered.run (h : Ordered hub.live) (script : List Stimulus) :
    Ordered (hub.run script).1.live := by
  induction script generalizing hub with
  | nil => exact h
  | cons stimulus rest ih => exact ih (h.step stimulus)

/-- A run, from its first stimulus on, is a schedule with the other stimuli. -/
theorem run_cons_eq_play (h : Ordered hub.live) (first : Stimulus) (rest : List Stimulus) :
    ∃ moves : List Move, moves.filterMap Move.stimulus? = rest ∧
      (hub.apply first).play moves =
        ((hub.run (first :: rest)).1, (hub.run (first :: rest)).2.flatten) := by
  obtain ⟨moves, hmoves, hplay⟩ := step_eq_play h first
  obtain ⟨more, hmore, hlater⟩ := run_eq_play (h.step first) rest
  refine ⟨moves ++ more, ?_, ?_⟩
  · rw [List.filterMap_append, hmoves, hmore, List.nil_append]
  · rw [play_append, hplay, hlater]
    rfl

end Hub

end LineStore
