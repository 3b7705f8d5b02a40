import LineStore.Proofs.Sharding
import LineStore.Store.Threads
import Mathlib.Algebra.Ring.Int.Defs
import Mathlib.Data.List.Perm.Subperm

/-!
# The key count while threads are at work

Between the change of a shard and the change of the key count other threads take
steps, so the key count is not always the number of keys.  It lacks what threads
still owe.

* `Threads.acts_of_step` says once what a step can do.  `Threads.step_of_acts` is
  the converse.
* `Threads.Secures` is what a thread relies on: the lock of its shard, and that the
  key which it has added is still bound.  `Acts.secures` and `Acts.secures_other`
  keep it for the thread that takes the step and for all others.
* `Acts.balance`: in a step, what the thread owes changes with the key count and the
  number of bindings.
* `Threads.Consistent` is the invariant.  `Consistent.step` and `Consistent.run`
  carry it along a schedule.
* `Consistent.addedUncounted_le_bound` finds all keys that are not counted among the
  bound keys, which is why the key count never falls below zero.
* `exists_run_eq_apply` relates the steps of one thread alone to `Store.apply`.
-/

namespace LineStore.Store

/-! ## Changes of a shard -/

namespace Change

/-- The command that a change carries out. -/
def command : Change → Command Bytes
  | put key value => .put key value
  | delete key => .delete key

/-- A change makes a shard larger or smaller by the key that it adds or
removes. -/
theorem length_applyTo (change : Change) (shard : Shard) :
    ((change.applyTo shard).length : Int) =
      shard.length + if change.movesKey shard then change.weight else 0 := by
  cases change with
  | put key value =>
    have hlength := Shard.length_insert shard key value
    cases hget : shard.get? key with
    | none => simp [applyTo, movesKey, weight, hlength, hget]
    | some old => simp [applyTo, movesKey, hlength, hget]
  | delete key =>
    have hlength := Shard.length_erase shard key
    cases hget : shard.get? key with
    | none => simp [applyTo, movesKey, ← hlength, hget]
    | some old =>
      simp only [hget, Option.isSome_some, if_true] at hlength
      simp only [applyTo, movesKey, weight, hget, Option.isSome_some, if_true]
      omega

theorem nodup_applyTo (change : Change) (shard : Shard) (h : (shard.map Prod.fst).Nodup) :
    ((change.applyTo shard).map Prod.fst).Nodup := by
  cases change with
  | put key value => exact Shard.nodup_insert h key value
  | delete key => exact Shard.nodup_erase h key

theorem mem_applyTo (change : Change) (shard : Shard) (binding : Bytes × Bytes)
    (h : binding ∈ change.applyTo shard) : binding.1 = change.key ∨ binding ∈ shard := by
  cases change with
  | put key value => exact (Shard.mem_insert h).imp_left (congrArg Prod.fst)
  | delete key => exact .inr (Shard.mem_of_mem_erase h)

end Change

/-! ## What a thread has done -/

/-- Tells whether a thread at this stage holds a lock. -/
def Stage.isLocked : Stage → Bool
  | locked | uncounted | finished => true
  | idle | counted => false

namespace Thread

/-- The key whose shard a thread has locked. -/
def lockedKey? (thread : Thread) : Option Bytes :=
  if thread.stage.isLocked then thread.changes.head?.map Change.key else none

/-- The key that a thread has added and not counted. -/
def newKey? (thread : Thread) : Option Bytes :=
  match thread.stage, thread.changes with
  | .uncounted, .put key _ :: _ => some key
  | _, _ => none

/-- By how much a thread still has to correct the key count. -/
def owed (thread : Thread) : Int :=
  match thread.stage, thread.changes with
  | .uncounted, change :: _ => change.weight
  | _, _ => 0

theorem lockedKey?_of_newKey? {thread : Thread} {key : Bytes} (h : thread.newKey? = some key) :
    thread.lockedKey? = some key := by
  unfold newKey? at h
  split at h
  · rename_i hstage hchanges
    simpa [lockedKey?, hstage, hchanges, Stage.isLocked, Change.key] using h
  · exact absurd h (by simp)

end Thread

namespace Threads

variable {state next shared : Threads} {id : Nat} {old new thread : Thread}

/-! ## The steps of a thread -/

/-- The store that the threads work on. -/
def store (state : Threads) : Store where
  place := state.place
  shards := state.shards
  counters :=
    { keys := UInt64.ofInt state.keys
      gets := 0
      puts := state.puts
      deletes := state.deletes
      refused := state.refused }

/-- The state after a change of its shard. -/
def changeShard (state : Threads) (change : Change) : Threads :=
  { state with shards := (state.store.modifyShard change.key change.applyTo).shards }

@[simp] theorem place_store (state : Threads) : state.store.place = state.place := rfl

@[simp] theorem store_changeShard (state : Threads) (change : Change) :
    (state.changeShard change).store =
      state.store.modifyShard change.key change.applyTo := rfl

theorem stepChange_locked (state : Threads) (id : Nat) (change : Change)
    (later : List Change) :
    state.stepChange id change later .locked =
      some ((state.changeShard change).setThread id ⟨change :: later,
        if change.movesKey (state.shards.get (state.place change.key)) then .uncounted
        else .finished⟩) := rfl

/-- What a thread does in a step: from which thread to which it goes, and what
becomes of what all threads share. -/
inductive Acts (state : Threads) (id : Nat) : Thread → Thread → Threads → Prop
  | refuses {change : Change} {later : List Change} (hr : change.isRefused = true) :
    Acts state id ⟨change :: later, .idle⟩ ⟨later, .idle⟩ (state.countOperation change)
  | begins {change : Change} {later : List Change} (hr : change.isRefused = false) :
    Acts state id ⟨change :: later, .idle⟩ ⟨change :: later, .counted⟩
      (state.countOperation change)
  | locks {change : Change} {later : List Change}
      (hfree : state.holders.get (state.place change.key) = none) :
    Acts state id ⟨change :: later, .counted⟩ ⟨change :: later, .locked⟩
      { state with
        holders := state.holders.set (state.place change.key) (some id)
          (state.place change.key).isLt }
  | moves {change : Change} {later : List Change}
      (hm : change.movesKey (state.shards.get (state.place change.key)) = true) :
    Acts state id ⟨change :: later, .locked⟩ ⟨change :: later, .uncounted⟩
      (state.changeShard change)
  | keeps {change : Change} {later : List Change}
      (hm : change.movesKey (state.shards.get (state.place change.key)) = false) :
    Acts state id ⟨change :: later, .locked⟩ ⟨change :: later, .finished⟩
      (state.changeShard change)
  | counts {change : Change} {later : List Change} :
    Acts state id ⟨change :: later, .uncounted⟩ ⟨change :: later, .finished⟩
      { state with keys := state.keys + change.weight }
  | unlocks {change : Change} {later : List Change} :
    Acts state id ⟨change :: later, .finished⟩ ⟨later, .idle⟩
      { state with
        holders := state.holders.set (state.place change.key) none
          (state.place change.key).isLt }

theorem acts_of_step (h : state.step id = some next) :
    ∃ old new shared, state.threads[id]? = some old ∧ Acts state id old new shared ∧
      next = shared.setThread id new := by
  unfold step at h
  split at h
  · rename_i change later stage ht
    cases stage with
    | idle =>
      obtain rfl := Option.some.inj h
      cases hr : change.isRefused with
      | true => exact ⟨_, _, _, ht, .refuses hr, by simp⟩
      | false => exact ⟨_, _, _, ht, .begins hr, by simp⟩
    | counted =>
      cases hfree : state.holders.get (state.place change.key) with
      | none =>
        simp only [stepChange, hfree, Option.isSome_none, Bool.false_eq_true, if_false] at h
        exact ⟨_, _, _, ht, .locks hfree, (Option.some.inj h).symm⟩
      | some holder => simp [stepChange, hfree] at h
    | locked =>
      rw [stepChange_locked] at h
      obtain rfl := Option.some.inj h
      cases hm : change.movesKey (state.shards.get (state.place change.key)) with
      | true => exact ⟨_, _, _, ht, .moves hm, by rw [if_pos rfl]⟩
      | false => exact ⟨_, _, _, ht, .keeps hm, by rw [if_neg Bool.false_ne_true]⟩
    | uncounted => exact ⟨_, _, _, ht, .counts, (Option.some.inj h).symm⟩
    | finished => exact ⟨_, _, _, ht, .unlocks, (Option.some.inj h).symm⟩
  · exact absurd h (by simp)
  · exact absurd h (by simp)

/-- To count an operation changes the counters of operations and nothing else. -/
theorem exists_countOperation_eq (state : Threads) (change : Change) :
    ∃ puts deletes refused,
      state.countOperation change = { state with puts, deletes, refused } := by
  unfold countOperation
  split
  · split
    · exact ⟨_, _, _, rfl⟩
    · exact ⟨_, _, _, rfl⟩
  · exact ⟨_, _, _, rfl⟩

theorem Acts.threads_eq (h : Acts state id old new shared) : shared.threads = state.threads := by
  cases h with
  | @refuses change | @begins change =>
    obtain ⟨puts, deletes, refused, heq⟩ := state.exists_countOperation_eq change
    rw [heq]
  | _ => rfl

/-! ## Locks -/

/-- Thread `id` holds the lock of the shard that it works on, and a key that it
has added and not counted is bound. -/
structure Secures (state : Threads) (id : Nat) (thread : Thread) : Prop where
  holds : ∀ key, thread.lockedKey? = some key → state.holders.get (state.place key) = some id
  bound : ∀ key, thread.newKey? = some key → (state.store.get? key).isSome

theorem secures_of_lockedKey?_eq_none (h : thread.lockedKey? = none) :
    Secures state id thread where
  holds key hkey := by simp [h] at hkey
  bound key hkey := by simp [Thread.lockedKey?_of_newKey? hkey] at h

/-- No two threads hold the lock of one shard. -/
theorem Secures.place_ne {other : Nat} {key key' : Bytes} (h : Secures state id old)
    (hother : Secures state other thread) (hne : other ≠ id) (hkey : old.lockedKey? = some key)
    (hkey' : thread.lockedKey? = some key') : state.place key' ≠ state.place key := by
  intro hplace
  have hholds := hother.holds key' hkey'
  rw [hplace, h.holds key hkey] at hholds
  exact hne (Option.some.inj hholds).symm

/-- A thread secures what it needs for its next step. -/
theorem Acts.secures (h : Acts state id old new shared) (hold : Secures state id old) :
    Secures shared id new := by
  cases h with
  | refuses | begins | unlocks => exact secures_of_lockedKey?_eq_none rfl
  | @locks change later =>
    refine ⟨?_, by simp [Thread.newKey?]⟩
    rintro key ⟨⟩
    exact (get_set _ _ _ _).trans (if_pos rfl)
  | @moves change later hm =>
    refine ⟨hold.holds, ?_⟩
    intro key hkey
    cases change with
    | put other value =>
      obtain rfl : other = key := Option.some.inj hkey
      simp [get?_modifyShard, Change.key, Change.applyTo, Shard.get?_insert]
    | delete other => exact absurd hkey (by simp [Thread.newKey?])
  | keeps | counts => exact ⟨hold.holds, by simp [Thread.newKey?]⟩

/-- What a thread has secured is not touched by the step of another one: in one
shard, both would hold the lock. -/
theorem Acts.secures_other {other : Nat} (h : Acts state id old new shared)
    (hold : Secures state id old) (hne : other ≠ id) (hother : Secures state other thread) :
    Secures shared other thread := by
  cases h with
  | @refuses change | @begins change =>
    obtain ⟨puts, deletes, refused, heq⟩ := state.exists_countOperation_eq change
    rw [heq]
    exact ⟨hother.holds, hother.bound⟩
  | @locks change later hfree =>
    refine ⟨?_, hother.bound⟩
    intro key hkey
    have hholds := hother.holds key hkey
    have hapart : state.place key ≠ state.place change.key := by
      intro hplace
      rw [hplace, hfree] at hholds
      exact absurd hholds (by simp)
    exact (get_set _ _ _ _).trans ((if_neg hapart).trans hholds)
  | @moves change later | @keeps change later =>
    refine ⟨hother.holds, ?_⟩
    intro key hkey
    have hapart := hold.place_ne hother hne rfl (Thread.lockedKey?_of_newKey? hkey)
    simpa [get?_modifyShard, hapart] using hother.bound key hkey
  | counts => exact ⟨hother.holds, hother.bound⟩
  | @unlocks change later =>
    refine ⟨?_, hother.bound⟩
    intro key hkey
    have hapart := hold.place_ne hother hne rfl hkey
    exact (get_set _ _ _ _).trans ((if_neg hapart).trans (hother.holds key hkey))

/-! ## The key count -/

theorem bound_changeShard (state : Threads) (change : Change) :
    ((state.changeShard change).bound : Int) =
      state.bound +
        if change.movesKey (state.shards.get (state.place change.key)) then change.weight
        else 0 := by
  have hlength : (state.changeShard change).bound +
        (state.shards.get (state.place change.key)).length =
      state.bound + (change.applyTo (state.shards.get (state.place change.key))).length :=
    length_toList_modifyShard state.store change.key change.applyTo
  have hshard := change.length_applyTo (state.shards.get (state.place change.key))
  omega

/-- What a thread owes makes up for what a step does to the bindings or to the key
count. -/
theorem Acts.balance (h : Acts state id old new shared) :
    shared.keys + new.owed + state.bound = state.keys + old.owed + shared.bound := by
  cases h with
  | @refuses change | @begins change =>
    obtain ⟨puts, deletes, refused, heq⟩ := state.exists_countOperation_eq change
    rw [heq]
    rfl
  | @moves change later hm =>
    rw [bound_changeShard, if_pos hm]
    simp only [Thread.owed, changeShard]
    omega
  | @keeps change later hm =>
    rw [bound_changeShard, hm]
    simp [Thread.owed, changeShard]
  | counts => simp [Thread.owed, bound]
  | locks | unlocks => rfl

theorem Acts.keys_inPlace_distinct (h : Acts state id old new shared)
    (hp : state.store.KeysInPlace) (hd : state.store.KeysDistinct) :
    shared.store.KeysInPlace ∧ shared.store.KeysDistinct := by
  cases h with
  | @refuses change | @begins change =>
    obtain ⟨puts, deletes, refused, heq⟩ := state.exists_countOperation_eq change
    rw [heq]
    exact ⟨hp, hd⟩
  | @moves change | @keeps change =>
    exact ⟨hp.modifyShard change.mem_applyTo,
      keysDistinct_modifyShard hd change.key change.nodup_applyTo⟩
  | locks | counts | unlocks => exact ⟨hp, hd⟩

/-! ## The invariant -/

/-- What holds of threads at all times. -/
structure Consistent (state : Threads) : Prop where
  inPlace : state.store.KeysInPlace
  distinct : state.store.KeysDistinct
  secured : ∀ id thread, state.threads[id]? = some thread → Secures state id thread
  /-- The key count lacks what the threads owe. -/
  balanced : state.keys + (state.threads.map Thread.owed).sum = state.bound

theorem sum_owed_set (threads : List Thread) (h : threads[id]? = some old) (new : Thread) :
    ((threads.set id new).map Thread.owed).sum + old.owed =
      (threads.map Thread.owed).sum + new.owed := by
  induction threads generalizing id with
  | nil => simp at h
  | cons first threads ih =>
    cases id with
    | zero =>
      obtain rfl : first = old := Option.some.inj h
      simp only [List.set_cons_zero, List.map_cons, List.sum_cons]
      omega
    | succ id =>
      have hrest := ih h
      simp only [List.set_cons_succ, List.map_cons, List.sum_cons]
      omega

theorem consistent_start (place : Bytes → Fin shardCount) (programs : List (List Change)) :
    (start place programs).Consistent where
  inPlace := keysInPlace_empty place
  distinct := keysDistinct_empty place
  secured id thread h := by
    obtain ⟨changes, -, rfl⟩ := List.mem_map.mp (List.mem_of_getElem? h)
    exact secures_of_lockedKey?_eq_none rfl
  balanced := by
    have hbound : (start place programs).bound = 0 :=
      congrArg List.length (toList_empty place)
    have howed : (start place programs).threads.map Thread.owed =
        programs.map fun _ => 0 := by
      rw [start, List.map_map]
      rfl
    rw [hbound, howed]
    simp [start]

theorem Consistent.step (h : state.Consistent) (hs : state.step id = some next) :
    next.Consistent := by
  obtain ⟨old, new, shared, hold, hacts, rfl⟩ := acts_of_step hs
  have hthreads := hacts.threads_eq
  have hsecured := h.secured id old hold
  obtain ⟨hp, hd⟩ := hacts.keys_inPlace_distinct h.inPlace h.distinct
  refine ⟨hp, hd, ?_, ?_⟩
  · intro other thread hother
    -- the thread that took the step is a new one, all others are as they were
    have hshared : Secures shared other thread := by
      rw [setThread, hthreads, List.getElem?_set] at hother
      split at hother
      · rename_i hid
        split at hother
        · obtain rfl := Option.some.inj hother
          exact hid ▸ hacts.secures hsecured
        · exact absurd hother (by simp)
      · rename_i hid
        exact hacts.secures_other hsecured (Ne.symm hid) (h.secured other thread hother)
    exact ⟨hshared.holds, hshared.bound⟩
  · have hbalance := hacts.balance
    have hsum := sum_owed_set state.threads hold new
    have hbalanced := h.balanced
    show shared.keys + ((shared.threads.set id new).map Thread.owed).sum = shared.bound
    rw [hthreads]
    omega

theorem Consistent.run (h : state.Consistent) (schedule : List Nat) :
    (state.run schedule).Consistent := by
  induction schedule generalizing state with
  | nil => exact h
  | cons id schedule ih =>
    show (Threads.run ((state.step id).getD state) schedule).Consistent
    cases hs : state.step id with
    | none => exact ih h
    | some next => exact ih (h.step hs)

/-! ## What the key count tells -/

theorem sum_owed (state : Threads) :
    (state.threads.map Thread.owed).sum + state.removedUncounted = state.addedUncounted := by
  unfold removedUncounted addedUncounted
  induction state.threads with
  | nil => rfl
  | cons thread threads ih =>
    rw [List.map_cons, List.sum_cons, List.countP_cons, List.countP_cons]
    rcases thread with ⟨_ | ⟨_ | _, _⟩, _ | _ | _ | _ | _⟩ <;>
      simp [Thread.owed, Change.weight] <;> omega

theorem addedUncounted_eq (state : Threads) :
    state.addedUncounted = (state.threads.filterMap Thread.newKey?).length := by
  rw [List.length_filterMap_eq_countP]
  refine List.countP_congr ?_
  intro thread _
  rcases thread with ⟨_ | ⟨_ | _, _⟩, _ | _ | _ | _ | _⟩ <;> simp [Thread.newKey?]

/-- No two threads have added the same key, and all the keys that they have added
are bound. -/
theorem Consistent.addedUncounted_le_bound (h : state.Consistent) :
    state.addedUncounted ≤ state.bound := by
  have hnodup : (state.threads.filterMap Thread.newKey?).Nodup := by
    rw [List.Nodup, List.pairwise_filterMap, List.pairwise_iff_getElem]
    intro i j hi hj hij key hkey key' hkey' heq
    have hfirst := h.secured i _ (List.getElem?_eq_getElem hi)
    have hsecond := h.secured j _ (List.getElem?_eq_getElem hj)
    -- with one key, both would hold the lock of its shard
    refine hfirst.place_ne hsecond (Nat.ne_of_gt hij) (Thread.lockedKey?_of_newKey? hkey)
      (Thread.lockedKey?_of_newKey? hkey') ?_
    rw [heq]
  have hsubset : state.threads.filterMap Thread.newKey? ⊆ state.store.keys := by
    intro key hmem
    obtain ⟨thread, hthread, hkey⟩ := List.mem_filterMap.mp hmem
    obtain ⟨id, hid⟩ := List.getElem?_of_mem hthread
    exact (mem_keys_iff h.inPlace h.distinct key).mpr ((h.secured id thread hid).bound key hkey)
  rw [addedUncounted_eq]
  exact (List.subperm_of_subset hnodup hsubset).length_le.trans_eq (length_keys state.store)

theorem Consistent.balance (h : state.Consistent) :
    state.keys + state.addedUncounted = state.bound + state.removedUncounted := by
  have howed := state.sum_owed
  have hbalanced := h.balanced
  omega

/-- The key count is large enough for all that is still to be subtracted from it. -/
theorem Consistent.removedUncounted_le_keys (h : state.Consistent) :
    (state.removedUncounted : Int) ≤ state.keys := by
  have hbalance := h.balance
  have hle := h.addedUncounted_le_bound
  omega

theorem Consistent.keys_eq_bound (h : state.Consistent)
    (hidle : ∀ thread ∈ state.threads, thread.stage = .idle) : state.keys = state.bound := by
  have howed : state.threads.map Thread.owed = state.threads.map fun _ => 0 := by
    refine List.map_congr_left ?_
    intro thread hmem
    rw [Thread.owed, hidle thread hmem]
  have hbalanced := h.balanced
  rw [howed] at hbalanced
  simpa using hbalanced

theorem size_eq (h : 0 ≤ state.keys) : state.store.size = UInt64.ofNat state.keys.toNat := by
  show UInt64.ofNat (state.keys % 2 ^ 64).toNat = _
  have hmod : (state.keys % 2 ^ 64).toNat = state.keys.toNat % UInt64.size := by
    rw [UInt64.size]
    omega
  rw [hmod]
  exact UInt64.ofNat_mod_size

theorem toNat_size (h : 0 ≤ state.keys) (hlt : state.keys < UInt64.size) :
    state.store.size.toNat = state.keys := by
  rw [size_eq h, UInt64.toNat_ofNat_of_lt' (by omega)]
  omega

theorem isEmpty_iff (h : 0 ≤ state.keys) (hlt : state.keys < UInt64.size) :
    state.store.isEmpty = true ↔ state.keys = 0 := by
  have hsize := toNat_size h hlt
  rw [isEmpty, beq_iff_eq, ← UInt64.toNat_inj, UInt64.toNat_zero]
  omega

/-! ## One thread alone -/

theorem step_of_acts (ht : state.threads[id]? = some old) (h : Acts state id old new shared) :
    state.step id = some (shared.setThread id new) := by
  cases h with
  | refuses hr | begins hr => simp [step, ht, stepChange, hr]
  | locks hfree => simp [step, ht, stepChange, hfree]
  | moves hm | keeps hm => simp [step, ht, stepChange_locked, hm]
  | counts | unlocks => simp [step, ht, stepChange]

theorem run_of_acts (ht : state.threads[id]? = some old) (h : Acts state id old new shared) :
    (∀ schedule, state.run (id :: schedule) = (shared.setThread id new).run schedule) ∧
      (shared.setThread id new).threads[id]? = some new := by
  constructor
  · intro schedule
    show Threads.run ((state.step id).getD state) schedule = _
    rw [step_of_acts ht h]
    rfl
  · obtain ⟨hid, -⟩ := List.getElem?_eq_some_iff.mp ht
    exact List.getElem?_set_self (h.threads_eq ▸ hid)

theorem store_refuse {change : Change} (hr : change.isRefused = true) :
    (state.store.apply change.command).2 = (state.countOperation change).store := by
  cases change with
  | put key value =>
    have hv : value = reserved := by simpa [Change.isRefused] using hr
    simp [Change.command, apply_put, put, hv, countOperation, Change.isRefused, store, count]
  | delete key => exact Bool.noConfusion hr

theorem store_change {change : Change} (hr : change.isRefused = false) :
    (state.store.apply change.command).2 =
      { (state.countOperation change).changeShard change with
        keys := state.keys +
          if change.movesKey (state.shards.get (state.place change.key)) then change.weight
          else 0 }.store := by
  cases change with
  | put key value =>
    have hv : value ≠ reserved := by simpa [Change.isRefused] using hr
    rw [Change.command, apply_put, put]
    cases hkey : (state.shards.get (state.place key)).get? key <;>
      simp [hv, store, get?, hkey, count, modifyShard, countOperation, hr, changeShard,
        Change.movesKey, Change.key, Change.weight, Change.applyTo, UInt64.ofInt_add]
  | delete key =>
    show (state.store.delete key).2 = _
    rw [delete]
    cases hkey : (state.shards.get (state.place key)).get? key <;>
      simp [store, get?, hkey, count, modifyShard, countOperation, changeShard,
        Change.movesKey, Change.key, Change.weight, Change.applyTo, UInt64.ofInt_add,
        UInt64.ofInt_neg, UInt64.sub_eq_add_neg]

theorem holders_unlocked {index : Fin shardCount} (hfree : state.holders.get index = none) :
    (state.holders.set index (some id) index.isLt).set index none index.isLt =
      state.holders := by
  rw [Vector.set_set, ← hfree]
  exact Vector.set_getElem_self _

/-- A change by a thread whose steps no other thread interrupts is the operation
on the store. -/
theorem exists_run_eq_apply {change : Change} {later : List Change}
    (ht : state.threads[id]? = some ⟨change :: later, .idle⟩)
    (hfree : state.holders.get (state.place change.key) = none) :
    ∃ steps, let next := state.run (List.replicate steps id)
      next.store = (state.store.apply change.command).2 ∧
        next.threads = state.threads.set id ⟨later, .idle⟩ ∧ next.holders = state.holders := by
  obtain ⟨puts, deletes, refused, hcount⟩ := state.exists_countOperation_eq change
  cases hr : change.isRefused with
  | true =>
    obtain ⟨hrun, -⟩ := run_of_acts ht (.refuses hr)
    refine ⟨1, ?_⟩
    rw [List.replicate_succ, hrun, store_refuse hr, hcount]
    exact ⟨rfl, rfl, rfl⟩
  | false =>
    obtain ⟨hbegins, hcounted⟩ := run_of_acts ht (.begins hr)
    rw [hcount] at hbegins hcounted
    obtain ⟨hlocks, hlocked⟩ := run_of_acts hcounted (.locks hfree)
    rw [store_change hr, hcount]
    cases hm : change.movesKey (state.shards.get (state.place change.key)) with
    | true =>
      obtain ⟨hmoves, huncounted⟩ := run_of_acts hlocked (.moves hm)
      obtain ⟨hcounts, hfinished⟩ := run_of_acts huncounted .counts
      obtain ⟨hunlocks, -⟩ := run_of_acts hfinished .unlocks
      refine ⟨5, ?_⟩
      simp only [List.replicate_succ, List.replicate_zero]
      rw [hbegins, hlocks, hmoves, hcounts, hunlocks]
      refine ⟨rfl, ?_, holders_unlocked hfree⟩
      simp [run, setThread, changeShard]
    | false =>
      obtain ⟨hkeeps, hfinished⟩ := run_of_acts hlocked (.keeps hm)
      obtain ⟨hunlocks, -⟩ := run_of_acts hfinished .unlocks
      refine ⟨4, ?_⟩
      simp only [List.replicate_succ, List.replicate_zero]
      rw [hbegins, hlocks, hkeeps, hunlocks]
      refine ⟨?_, ?_, holders_unlocked hfree⟩
      · simp [run, setThread, changeShard, store]
      · simp [run, setThread, changeShard]

/-! ## The main result -/

/-- Threads change one store, in any number and in any order that the locks of the
shards allow.  At every moment the key count is in balance with the keys.

* With the keys that threads have added and not counted, it is the number of keys
  that are bound and of keys that were removed and are still counted.  It is never
  below zero, and never below what threads still have to subtract from it.
* The bindings in all shards are the bound keys, each once.
* The store reports this key count as its size, and as a number that is not negative.
  As long as the number fits, both are the same, and the store reports that it is
  empty if and only if the key count is zero.
* When no thread is within a change, the key count is the number of bound keys.
* If one thread makes a change and no other thread takes a step in between, the
  store is what the operation on it makes of it. -/
theorem key_count_balanced (place : Bytes → Fin shardCount) (programs : List (List Change))
    (schedule : List Nat) :
    let state := (start place programs).run schedule
    (state.keys + state.addedUncounted = state.bound + state.removedUncounted ∧
        0 ≤ state.keys ∧ state.removedUncounted ≤ state.keys) ∧
      (state.bound = state.store.keys.length ∧ state.store.keys.Nodup ∧
        ∀ key, key ∈ state.store.keys ↔ (state.store.get? key).isSome) ∧
      (state.store.size = UInt64.ofNat state.keys.toNat ∧
        (state.keys < UInt64.size →
          state.store.size.toNat = state.keys ∧
            (state.store.isEmpty = true ↔ state.keys = 0))) ∧
      ((∀ thread ∈ state.threads, thread.stage = .idle) → state.keys = state.bound) ∧
      ∀ (id : Nat) (change : Change) (later : List Change),
        state.threads[id]? = some ⟨change :: later, .idle⟩ →
        state.holders.get (state.place change.key) = none →
        ∃ steps, let next := state.run (List.replicate steps id)
          next.store = (state.store.apply change.command).2 ∧
            next.threads = state.threads.set id ⟨later, .idle⟩ ∧
            next.holders = state.holders := by
  intro state
  have h : state.Consistent := (consistent_start place programs).run schedule
  have hremoved := h.removedUncounted_le_keys
  have hnonneg : 0 ≤ state.keys := by omega
  refine ⟨⟨h.balance, hnonneg, hremoved⟩,
    ⟨(length_keys state.store).symm, nodup_keys h.inPlace h.distinct,
      mem_keys_iff h.inPlace h.distinct⟩,
    ⟨size_eq hnonneg, fun hlt => ⟨toNat_size hnonneg hlt, isEmpty_iff hnonneg hlt⟩⟩,
    h.keys_eq_bound, fun id change later => exists_run_eq_apply⟩

/-- Two threads at one key.  The second thread waits for the lock while the first
has added the key and not counted it, and then removes the key. -/
theorem key_count_balanced_in_one_shard :
    let initial := start (fun _ => ⟨7, by decide⟩) [[.put [1] [10]], [.delete [1]]]
    let added := initial.run [0, 0, 0, 1, 1]
    let removed := initial.run [0, 0, 0, 1, 1, 0, 0, 1, 1]
    let done := initial.run [0, 0, 0, 1, 1, 0, 0, 1, 1, 1, 1]
    (added.keys = 0 ∧ added.addedUncounted = 1 ∧
        added.keys + added.addedUncounted = added.bound + added.removedUncounted) ∧
      (removed.keys < UInt64.size ∧ removed.store.size.toNat = removed.keys ∧
        removed.removedUncounted = 1 ∧ removed.removedUncounted ≤ removed.keys) ∧
      ((∀ thread ∈ done.threads, thread.stage = .idle) ∧ done.keys = done.bound) ∧
      ∃ steps, (initial.run (List.replicate steps 0)).store =
        (initial.store.apply (.put [1] [10])).2 := by
  intro initial added removed done
  obtain ⟨⟨hadded, -, -⟩, -⟩ := key_count_balanced (fun _ => ⟨7, by decide⟩)
    [[.put [1] [10]], [.delete [1]]] [0, 0, 0, 1, 1]
  obtain ⟨⟨-, -, hremoved⟩, -, ⟨-, hsize⟩, -⟩ := key_count_balanced (fun _ => ⟨7, by decide⟩)
    [[.put [1] [10]], [.delete [1]]] [0, 0, 0, 1, 1, 0, 0, 1, 1]
  obtain ⟨-, -, -, hdone, -⟩ := key_count_balanced (fun _ => ⟨7, by decide⟩)
    [[.put [1] [10]], [.delete [1]]] [0, 0, 0, 1, 1, 0, 0, 1, 1, 1, 1]
  obtain ⟨-, -, -, -, halone⟩ := key_count_balanced (fun _ => ⟨7, by decide⟩)
    [[.put [1] [10]], [.delete [1]]] []
  have hlt : removed.keys < UInt64.size := by decide +kernel
  have hidle : ∀ thread ∈ done.threads, thread.stage = .idle := by decide +kernel
  obtain ⟨steps, hstore, -⟩ := halone 0 (.put [1] [10]) [] (by decide +kernel) (by decide +kernel)
  exact ⟨⟨by decide +kernel, by decide +kernel, hadded⟩,
    ⟨hlt, (hsize hlt).1, by decide +kernel, hremoved⟩, ⟨hidle, hdone hidle⟩, steps, hstore⟩

end Threads

end LineStore.Store
