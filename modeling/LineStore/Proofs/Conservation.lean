import LineStore.Proofs.Bookkeeping
import LineStore.Workload
import Mathlib.Data.Bool.Count

/-!
# Keys are neither lost nor gained

Threads put, get and delete keys of one store, in any order.  Whoever binds a
key that was unbound is told so, and so is whoever removes a key that was bound.
The answers of all threads together therefore account for every key.

* `Store.turns` are the times at which a key was bound or removed, read off the
  answers.  `Store.alternates_turns`: binding and removing a key alternate.
* `Store.creations_add`: so many more times a key was bound than removed as it
  is bound at the end and was not at the start.
* `FlatMap.respondAll_eq_none`: a key that is deleted and never put is not
  bound at the end, whoever deleted it.
* The main result is about any interleaving of any threads.
-/

namespace LineStore

/-! ## Interleavings -/

namespace Workload

variable {α : Type} {threads : List (List α)} {order : List α}

/-- An interleaving has the tasks of all threads, each as often as they have
it. -/
theorem Interleaving.perm (h : Interleaving threads order) : order.Perm threads.flatten := by
  induction h with
  | done isOver => rw [List.flatten_eq_nil_iff.mpr isOver]
  | @next before after task rest order _ ih =>
    rw [List.flatten_append, List.flatten_cons] at ih ⊢
    exact (ih.cons task).trans List.perm_middle.symm

theorem Interleaving.mem_iff (h : Interleaving threads order) {task : α} :
    task ∈ order ↔ ∃ thread ∈ threads, task ∈ thread :=
  h.perm.mem_iff.trans List.mem_flatten

end Workload

/-! ## Alternation -/

namespace Store

/-- Values that change at every turn, from the first to the last.  Each turn is
the value that it changes to. -/
inductive Alternates : Bool → List Bool → Bool → Prop
  | stays (value : Bool) : Alternates value [] value
  | turns {value last : Bool} {turns : List Bool} (later : Alternates value turns last) :
    Alternates (!value) (value :: turns) last

namespace Alternates

variable {first middle last : Bool} {turns more : List Bool}

theorem append (h : Alternates first turns middle) (hmore : Alternates middle more last) :
    Alternates first (turns ++ more) last := by
  induction h with
  | stays => exact hmore
  | turns _ ih => exact (ih hmore).turns

theorem isChain (h : Alternates first turns last) : (first :: turns).IsChain (· ≠ ·) := by
  induction h with
  | stays => exact List.isChain_singleton _
  | turns _ ih => exact List.isChain_cons_cons.mpr ⟨Bool.not_ne_self _, ih⟩

/-- There are as many turns either way, but for where they begin and end. -/
theorem count_add (h : Alternates first turns last) :
    turns.count true + first.toNat = turns.count false + last.toNat := by
  induction h with
  | stays => rfl
  | @turns value last turns _ ih =>
    cases value with
    | false =>
      have hzero : false.toNat = 0 := rfl
      rw [List.count_cons_of_ne (by decide), List.count_cons_self]
      show _ + 1 = _
      omega
    | true =>
      have hone : true.toNat = 1 := rfl
      rw [List.count_cons_self, List.count_cons_of_ne (by decide)]
      show _ + 1 + 0 = _
      omega

end Alternates

/-! ## Operations on one key -/

/-- What an operation did to a key: it bound it, removed it, or neither. -/
def Operation.turn? (key : Bytes) (operation : Operation) : Option Bool :=
  if operation.1.key = key then
    if operation.creates then some true
    else if operation.removes then some false
    else none
  else none

end Store

namespace FlatMap

/-- An operation that binds a key finds it unbound, one that removes it finds it
bound, and otherwise the key stays as it is. -/
theorem alternates_respond (map : FlatMap) (command : Command Bytes) (key : Bytes) :
    Store.Alternates (map key).isSome
      (Store.Operation.turn? key (command, (map.respond command).1)).toList
      ((map.respond command).2 key).isSome := by
  by_cases hkey : command.key = key
  · subst hkey
    cases command with
    | put key value =>
      by_cases hv : value = Store.reserved
      · simpa [Store.Operation.turn?, respond, hv] using .stays _
      · cases hmap : map key with
        | none =>
          simpa [Store.Operation.turn?, respond, hv, hmap, Command.key] using
            .turns (.stays true)
        | some old =>
          simpa [Store.Operation.turn?, respond, hv, hmap, Command.key] using .stays true
    | get key => simpa [Store.Operation.turn?, respond] using .stays _
    | delete key =>
      cases hmap : map key with
      | none => simpa [Store.Operation.turn?, respond, hmap, Command.key] using .stays false
      | some old =>
        simpa [Store.Operation.turn?, respond, hmap, Command.key] using .turns (.stays false)
  · rw [Store.Operation.turn?, if_neg hkey, respond_of_ne (Ne.symm hkey)]
    exact .stays _

/-- A key that nothing puts is unbound at the end, if it was at the start or is
deleted on the way. -/
theorem respondAll_eq_none {map : FlatMap} {commands : List (Command Bytes)} {key : Bytes}
    (hput : ∀ value, .put key value ∉ commands)
    (h : map key = none ∨ .delete key ∈ commands) : (map.respondAll commands).2 key = none := by
  induction commands generalizing map with
  | nil => exact h.resolve_right List.not_mem_nil
  | cons command rest ih =>
    have hrest : ∀ value, .put key value ∉ rest := fun value hmem =>
      hput value (List.mem_cons_of_mem _ hmem)
    have hunbound : map key = none → (map.respond command).2 key = none := by
      intro hnone
      cases command with
      | put other value =>
        have hne : key ≠ other := by
          rintro rfl
          exact hput value List.mem_cons_self
        rw [respond_of_ne hne, hnone]
      | get other => exact hnone
      | delete other =>
        show Function.update map other none key = none
        rw [Function.update_apply, hnone, ite_self]
    refine ih hrest ?_
    rcases h with hnone | hmem
    · exact .inl (hunbound hnone)
    · rcases List.mem_cons.mp hmem with rfl | hlater
      · exact .inl (Function.update_self key none map)
      · exact .inr hlater

end FlatMap

namespace Store

/-- The times at which a key was bound and removed in a history. -/
def turns (key : Bytes) (history : List Operation) : List Bool :=
  history.filterMap (Operation.turn? key)

/-- The number of puts of a key that found it unbound. -/
def creations (key : Bytes) (history : List Operation) : Nat :=
  history.countP fun operation => operation.1.key = key && operation.creates

/-- The number of deletes of a key that found it bound. -/
def removals (key : Bytes) (history : List Operation) : Nat :=
  history.countP fun operation => operation.1.key = key && operation.removes

/-- Whether a key is bound. -/
def binds (store : Store) (key : Bytes) : Bool :=
  (store.get? key).isSome

theorem count_true_turns (key : Bytes) (history : List Operation) :
    (turns key history).count true = creations key history := by
  rw [turns, List.count_filterMap, creations]
  refine List.countP_congr ?_
  intro operation _
  unfold Operation.turn?
  cases hcreates : operation.creates <;> cases hremoves : operation.removes <;>
    by_cases hkey : operation.1.key = key <;> simp [hkey]

theorem count_false_turns (key : Bytes) (history : List Operation) :
    (turns key history).count false = removals key history := by
  rw [turns, List.count_filterMap, removals]
  refine List.countP_congr ?_
  intro operation _
  have hexclusive : operation.removes = true → operation.creates = false := by
    simp only [Operation.removes, Operation.creates, decide_eq_true_eq]
    intro hanswer
    rw [hanswer]
    rfl
  unfold Operation.turn?
  cases hremoves : operation.removes <;> cases hcreates : operation.creates <;>
    by_cases hkey : operation.1.key = key <;> simp_all

variable {store : Store}

/-- Binding and removing a key alternate, from what the key is at the start to
what it is at the end. -/
theorem alternates_turns (h : store.KeysDistinct) (key : Bytes)
    (commands : List (Command Bytes)) :
    Alternates (store.binds key) (turns key (store.history commands))
      ((store.applyAll commands).2.binds key) := by
  induction commands generalizing store with
  | nil => exact .stays _
  | cons command rest ih =>
    obtain ⟨happly, hdistinct⟩ := apply_eq_respond h command
    have hfirst := FlatMap.alternates_respond store.get? command key
    rw [← happly] at hfirst
    have hturns : turns key (store.history (command :: rest)) =
        (Operation.turn? key (command, (store.apply command).1)).toList ++
          turns key ((store.apply command).2.history rest) := by
      rw [history_cons, turns, List.filterMap_cons]
      cases Operation.turn? key (command, (store.apply command).1) <;> rfl
    rw [hturns]
    exact hfirst.append (ih hdistinct)

/-- So many more times a key was bound than removed as it is bound at the end
and was not at the start. -/
theorem creations_add (h : store.KeysDistinct) (key : Bytes) (commands : List (Command Bytes)) :
    creations key (store.history commands) + (store.binds key).toNat =
      removals key (store.history commands) +
        ((store.applyAll commands).2.binds key).toNat := by
  rw [← count_true_turns, ← count_false_turns]
  exact (alternates_turns h key commands).count_add

/-! ## Races -/

theorem creations_eq_zero (store : Store) {key : Bytes} {commands : List (Command Bytes)}
    (hput : ∀ value, .put key value ∉ commands) :
    creations key (store.history commands) = 0 := by
  induction commands generalizing store with
  | nil => rfl
  | cons command rest ih =>
    have hfirst : ¬(command.key = key && Operation.creates (command, (store.apply command).1)) := by
      cases command with
      | put other value =>
        have hne : other ≠ key := by
          rintro rfl
          exact hput value List.mem_cons_self
        simp [Command.key, hne]
      | get other => simp [apply, get]
      | delete other => simp [apply]
    have hrest := ih (store.apply command).2 fun value hmem =>
      hput value (List.mem_cons_of_mem _ hmem)
    rw [history_cons]
    refine (List.countP_cons_of_neg ?_).trans hrest
    exact hfirst

/-- Of all deletes of a key that is bound and that nothing puts, one finds it. -/
theorem removals_eq_one (h : store.KeysDistinct) {key : Bytes}
    {commands : List (Command Bytes)} (hbound : store.binds key = true)
    (hdelete : .delete key ∈ commands) (hput : ∀ value, .put key value ∉ commands) :
    removals key (store.history commands) = 1 := by
  have hmap := congrArg Prod.snd (applyAll_eq_respondAll h commands).1
  have hlast : (store.applyAll commands).2.binds key = false := by
    rw [binds, show (store.applyAll commands).2.get? = _ from hmap,
      FlatMap.respondAll_eq_none hput (.inr hdelete)]
    rfl
  have hadd := creations_add h key commands
  rw [creations_eq_zero store hput, hbound, hlast] at hadd
  exact hadd.symm

/-! ## The main result -/

/-- Threads do puts, gets and deletes on one store, each its own, in any
interleaving.  The answers that they get account for the keys.

* A key was bound and removed so often that the difference is what it is at the
  end and was not at the start, and binding and removing it alternated.
* The key count and the number of bindings have changed by what all threads
  bound and removed.
* If a key was bound and no thread puts it, then one delete of it finds it, and
  only one. -/
theorem keys_conserved {store : Store} (h : store.KeysDistinct)
    {threads : List (List (Command Bytes))} {order : List (Command Bytes)}
    (hi : Workload.Interleaving threads order) :
    let history := store.history order
    let last := (store.applyAll order).2
    (∀ key : Bytes,
        creations key history + (store.binds key).toNat =
            removals key history + (last.binds key).toNat ∧
          (store.binds key :: turns key history).IsChain (· ≠ ·) ∧
          (turns key history).count true = creations key history ∧
          (turns key history).count false = removals key history) ∧
      (last.size = store.size + UInt64.ofNat (history.countP Operation.creates) -
          UInt64.ofNat (history.countP Operation.removes) ∧
        last.toList.length + history.countP Operation.removes =
          store.toList.length + history.countP Operation.creates) ∧
      ∀ key : Bytes, store.binds key = true → (∃ thread ∈ threads, .delete key ∈ thread) →
        (∀ thread ∈ threads, ∀ value, .put key value ∉ thread) → removals key history = 1 := by
  intro history last
  refine ⟨?_, ⟨?_, length_toList_applyAll store order⟩, ?_⟩
  · intro key
    exact ⟨creations_add h key order, (alternates_turns h key order).isChain,
      count_true_turns key history, count_false_turns key history⟩
  · exact congrArg Counters.keys (counters_applyAll store order)
  · intro key hbound hdelete hput
    refine removals_eq_one h hbound (hi.mem_iff.mpr hdelete) ?_
    intro value hmem
    obtain ⟨thread, hthread, hvalue⟩ := hi.mem_iff.mp hmem
    exact hput thread hthread value hvalue

/-- Two threads race for a key that is bound, and both bind a second key, which
one of them removes again. -/
theorem keys_conserved_in_race :
    let store := (Store.new.put [1] [10]).2
    let threads : List (List (Command Bytes)) :=
      [[.put [2] [20], .delete [1], .delete [2]], [.delete [1], .put [2] [21], .get [1]]]
    let order : List (Command Bytes) :=
      [.put [2] [20], .delete [1], .delete [1], .delete [2], .put [2] [21], .get [1]]
    store.KeysDistinct ∧ Workload.Interleaving threads order ∧ store.binds [1] = true ∧
      removals [1] (store.history order) = 1 ∧
      creations [2] (store.history order) = removals [2] (store.history order) + 1 := by
  intro store threads order
  have h : store.KeysDistinct := keysDistinct_put (keysDistinct_empty spread) [1] [10]
  have hi : Workload.Interleaving threads order :=
    @Workload.Interleaving.next _ [] _ _ _ _ <| @Workload.Interleaving.next _ [] _ _ _ _ <|
      @Workload.Interleaving.next _ [_] _ _ _ _ <| @Workload.Interleaving.next _ [] _ _ _ _ <|
        @Workload.Interleaving.next _ [_] _ _ _ _ <|
          @Workload.Interleaving.next _ [_] _ _ _ _ <| .done (by decide)
  obtain ⟨hkeys, -, hrace⟩ := keys_conserved h hi
  have hbound : store.binds [1] = true := by decide +kernel
  refine ⟨h, hi, hbound, hrace [1] hbound (by decide) ?_, ?_⟩
  · intro thread hthread value hmem
    simp only [threads, List.mem_cons, List.not_mem_nil, or_false] at hthread
    rcases hthread with rfl | rfl
    · simp at hmem
    · simp at hmem
  · have hadd : creations [2] (store.history order) + (store.binds [2]).toNat =
        removals [2] (store.history order) + ((store.applyAll order).2.binds [2]).toNat :=
      (hkeys [2]).1
    have hfirst : (store.binds [2]).toNat = 0 := by decide +kernel
    have hlast : ((store.applyAll order).2.binds [2]).toNat = 1 := by decide +kernel
    omega

end Store

end LineStore
