import LineStore.Proofs.Bookkeeping
import LineStore.Proofs.StoredWords

/-!
# Bindings in their shards

A store keeps each key in the shard that `Store.place` names, and counts its
keys beside the shards.  Nothing is assumed of `place`: keys may all go to one
shard, or each to its own.

* `Store.Sound` is the invariant of a store.  Keys are where they belong, no
  key is held twice, no value is the reserved one, and the key count is the
  number of bindings.
* `Store.Sound.apply` and `Store.Sound.applyAll` carry it over operations.
* `Store.Sound.mem_keys_iff` and `Store.Sound.nodup_keys` say what the bindings
  of all shards are together: the bound keys, each once.
* The main result puts these beside the simulation by one map.
-/

namespace LineStore

theorem Shard.get?_of_mem {shard : Shard} {key value : Bytes}
    (h : (shard.map Prod.fst).Nodup) (hmem : (key, value) ∈ shard) :
    shard.get? key = some value := by
  induction shard with
  | nil => exact absurd hmem List.not_mem_nil
  | cons binding shard ih =>
    obtain ⟨hfirst, hrest⟩ := List.nodup_cons.mp h
    rw [get?_cons]
    rcases List.mem_cons.mp hmem with rfl | hlater
    · rw [if_pos rfl]
    · have hne : key ≠ binding.1 := fun hk =>
        hfirst (List.mem_map.mpr ⟨(key, value), hlater, hk⟩)
      rw [if_neg hne]
      exact ih hrest hlater

namespace Store

variable {store : Store} {key value : Bytes}

/-! ## Keys in their shards -/

/-- Every key is in its own shard. -/
def KeysInPlace (store : Store) : Prop :=
  ∀ index : Fin shardCount, ∀ binding ∈ store.shards.get index, store.place binding.1 = index

theorem keysInPlace_empty (place : Bytes → Fin shardCount) : (empty place).KeysInPlace := by
  intro index binding hmem
  have hnone : binding ∈ (Vector.replicate shardCount ([] : Shard))[index.val] := hmem
  simp at hnone

/-- A change of a key's own shard may put this key there, and no other. -/
theorem KeysInPlace.modifyShard (h : store.KeysInPlace) {change : Shard → Shard}
    (hchange : ∀ shard : Shard, ∀ binding ∈ change shard,
      binding.1 = key ∨ binding ∈ shard) :
    (store.modifyShard key change).KeysInPlace := by
  intro index binding hmem
  show store.place binding.1 = index
  rw [get_modifyShard] at hmem
  split at hmem
  · rename_i hindex
    rcases hchange _ binding hmem with hkey | hold
    · rw [hkey, hindex]
    · exact h index binding hold
  · exact h index binding hmem

theorem KeysInPlace.put (h : store.KeysInPlace) : (store.put key value).2.KeysInPlace := by
  have hcount : (store.count fun c => { c with puts := c.puts + 1 }).KeysInPlace := h
  have hinsert : ((store.count fun c => { c with puts := c.puts + 1 }).modifyShard key
      (·.insert key value)).KeysInPlace := by
    refine hcount.modifyShard ?_
    intro shard binding hmem
    exact (Shard.mem_insert hmem).imp_left (congrArg Prod.fst)
  unfold Store.put
  split
  · exact h
  · dsimp only
    split
    · exact hinsert
    · exact hinsert

theorem KeysInPlace.delete (h : store.KeysInPlace) : (store.delete key).2.KeysInPlace := by
  have hcount : (store.count fun c => { c with deletes := c.deletes + 1 }).KeysInPlace := h
  have herase : ((store.count fun c => { c with deletes := c.deletes + 1 }).modifyShard key
      (·.erase key)).KeysInPlace :=
    hcount.modifyShard fun _ _ hmem => .inr (Shard.mem_of_mem_erase hmem)
  unfold Store.delete
  dsimp only
  split
  · exact herase
  · exact herase

theorem place_apply (store : Store) (command : Command Bytes) :
    (store.apply command).2.place = store.place := by
  cases command with
  | put key value =>
    rw [apply_put]
    unfold put
    split
    · rfl
    · dsimp only
      split <;> rfl
  | get key => rfl
  | delete key =>
    show (store.delete key).2.place = store.place
    unfold delete
    dsimp only
    split <;> rfl

theorem place_applyAll (store : Store) (commands : List (Command Bytes)) :
    (store.applyAll commands).2.place = store.place := by
  induction commands generalizing store with
  | nil => rfl
  | cons command rest ih => exact (ih _).trans (place_apply store command)

/-! ## The invariant -/

/-- What holds of every store that operations have made. -/
structure Sound (store : Store) : Prop where
  inPlace : store.KeysInPlace
  distinct : store.KeysDistinct
  unreserved : store.AllBindings fun binding => binding.2 ≠ reserved
  /-- The key count is the number of bindings. -/
  counted : store.size = UInt64.ofNat store.toList.length

theorem toList_empty (place : Bytes → Fin shardCount) : (empty place).toList = [] := by
  show (Vector.replicate shardCount ([] : Shard)).toList.flatten = []
  simp

theorem sound_empty (place : Bytes → Fin shardCount) : (empty place).Sound where
  inPlace := keysInPlace_empty place
  distinct := keysDistinct_empty place
  unreserved := allBindings_empty place
  counted := by
    rw [toList_empty]
    rfl

/-- The key count goes on being the number of bindings, because both move as
the answer says. -/
theorem counted_apply (h : store.size = UInt64.ofNat store.toList.length)
    (command : Command Bytes) :
    (store.apply command).2.size = UInt64.ofNat (store.apply command).2.toList.length := by
  have hlength := congrArg UInt64.ofNat (length_toList_apply store command)
  have hsize : (store.apply command).2.size =
      store.size +
          UInt64.ofNat ([(command, (store.apply command).1)].countP Operation.creates) -
        UInt64.ofNat ([(command, (store.apply command).1)].countP Operation.removes) :=
    congrArg Counters.keys (counters_apply store command)
  rw [UInt64.ofNat_add, UInt64.ofNat_add, ← h] at hlength
  rw [hsize, ← hlength, UInt64.add_sub_cancel]

theorem Sound.apply (h : store.Sound) (command : Command Bytes) :
    (store.apply command).2.Sound where
  inPlace := by
    cases command with
    | put key value =>
      rw [apply_put]
      exact h.inPlace.put
    | get key => exact h.inPlace
    | delete key => exact h.inPlace.delete
  distinct := (apply_eq_respond h.distinct command).2
  unreserved := by
    cases command with
    | put key value =>
      rw [apply_put]
      exact h.unreserved.put id
    | get key => exact h.unreserved
    | delete key => exact h.unreserved.delete
  counted := counted_apply h.counted command

theorem Sound.applyAll (h : store.Sound) (commands : List (Command Bytes)) :
    (store.applyAll commands).2.Sound := by
  induction commands generalizing store with
  | nil => exact h
  | cons command rest ih => exact ih (h.apply command)

/-! ## The bindings of all shards -/

theorem mem_toList_iff {binding : Bytes × Bytes} :
    binding ∈ store.toList ↔ ∃ index : Fin shardCount, binding ∈ store.shards.get index := by
  unfold toList
  rw [List.mem_flatten]
  constructor
  · rintro ⟨shard, hshard, hmem⟩
    obtain ⟨index, hlt, rfl⟩ := Vector.getElem_of_mem (Vector.mem_toList_iff.mp hshard)
    exact ⟨⟨index, hlt⟩, hmem⟩
  · rintro ⟨index, hmem⟩
    exact ⟨_, Vector.mem_toList_iff.mpr (Vector.getElem_mem index.isLt), hmem⟩

/-- The keys in all shards. -/
def keys (store : Store) : List Bytes :=
  store.toList.map Prod.fst

@[simp] theorem length_keys (store : Store) : store.keys.length = store.toList.length :=
  List.length_map _

theorem mem_keys_iff (hp : store.KeysInPlace) (hd : store.KeysDistinct) (key : Bytes) :
    key ∈ store.keys ↔ (store.get? key).isSome := by
  rw [keys, List.mem_map]
  constructor
  · rintro ⟨⟨other, value⟩, hmem, rfl⟩
    obtain ⟨index, hbinding⟩ := mem_toList_iff.mp hmem
    -- the binding is in the shard where the key is looked for
    have hplace : store.place other = index := hp index _ hbinding
    have hget : store.get? other = some value := by
      unfold get?
      rw [hplace]
      exact Shard.get?_of_mem (hd index) hbinding
    rw [hget]
    rfl
  · intro hbound
    obtain ⟨value, hget⟩ := Option.isSome_iff_exists.mp hbound
    exact ⟨(key, value), mem_toList_iff.mpr ⟨store.place key, Shard.mem_of_get? hget⟩, rfl⟩

/-- No key is in two shards, and none is in one shard twice. -/
theorem nodup_keys (hp : store.KeysInPlace) (hd : store.KeysDistinct) : store.keys.Nodup := by
  unfold keys toList
  rw [List.map_flatten]
  refine List.pairwise_flatten.mpr ⟨?_, ?_⟩
  · intro keys hkeys
    obtain ⟨shard, hshard, rfl⟩ := List.mem_map.mp hkeys
    obtain ⟨index, hlt, rfl⟩ := Vector.getElem_of_mem (Vector.mem_toList_iff.mp hshard)
    exact hd ⟨index, hlt⟩
  · rw [List.pairwise_map, List.pairwise_iff_getElem]
    intro i j hi hj hij first hfirst second hsecond
    rw [Vector.length_toList] at hi hj
    obtain ⟨binding, hbinding, rfl⟩ := List.mem_map.mp hfirst
    obtain ⟨other, hother, rfl⟩ := List.mem_map.mp hsecond
    have hplace : store.place binding.1 = ⟨i, hi⟩ := hp ⟨i, hi⟩ binding hbinding
    have hplace' : store.place other.1 = ⟨j, hj⟩ := hp ⟨j, hj⟩ other hother
    intro hkey
    rw [hkey, hplace'] at hplace
    exact Nat.ne_of_lt hij (Fin.mk.inj hplace).symm

theorem Sound.mem_keys_iff (h : store.Sound) (key : Bytes) :
    key ∈ store.keys ↔ (store.get? key).isSome :=
  Store.mem_keys_iff h.inPlace h.distinct key

theorem Sound.nodup_keys (h : store.Sound) : store.keys.Nodup :=
  Store.nodup_keys h.inPlace h.distinct

/-- As long as the number of keys fits the key count, both are the same. -/
theorem Sound.toNat_size (h : store.Sound) (hlt : store.keys.length < UInt64.size) :
    store.size.toNat = store.keys.length := by
  rw [length_keys] at hlt ⊢
  rw [h.counted]
  exact UInt64.toNat_ofNat_of_lt' hlt

theorem Sound.isEmpty_iff (h : store.Sound) (hlt : store.keys.length < UInt64.size) :
    store.isEmpty = true ↔ ∀ key, store.get? key = none := by
  rw [isEmpty, beq_iff_eq, ← UInt64.toNat_inj, h.toNat_size hlt]
  show store.keys.length = 0 ↔ _
  rw [List.length_eq_zero_iff, List.eq_nil_iff_forall_not_mem]
  constructor
  · intro hnone key
    have hkey := mt (h.mem_keys_iff key).mpr (hnone key)
    rwa [Bool.not_eq_true, Option.isSome_eq_false_iff, Option.isNone_iff_eq_none] at hkey
  · intro hnone key hmem
    have hbound := (h.mem_keys_iff key).mp hmem
    rw [hnone key] at hbound
    exact Bool.noConfusion hbound

/-! ## The main result -/

theorem length_applyAll (store : Store) (commands : List (Command Bytes)) :
    (store.applyAll commands).1.length = commands.length := by
  induction commands generalizing store with
  | nil => rfl
  | cons command rest ih => exact congrArg (· + 1) (ih _)

theorem countP_verb_history (store : Store) (commands : List (Command Bytes)) (verb : Verb) :
    (store.history commands).countP (fun operation => operation.1.verb = verb) =
      commands.countP fun command => command.verb = verb := by
  have hfirst : (store.history commands).map Prod.fst = commands :=
    List.map_fst_zip (Nat.le_of_eq (length_applyAll store commands).symm)
  conv => rhs; rw [← hfirst, List.countP_map]
  rfl

/-- A store is one map, wherever its keys go.

* It answers a sequence of operations as a map does that is empty at first, and
  its keys read what they read in the map.  An operation changes what its own
  key reads and no other key, in whatever shards they are.
* Each shard holds keys of its own, each once, and none with the reserved value.
* The key count is the number of the keys in all shards, and these are the
  bound keys, each once.
* The other counters say how many operations of each kind there were, and how
  many puts were accepted and how many refused.  A refused put gives its value
  back and changes nothing but the number of refusals. -/
theorem behaves_as_one_map (place : Bytes → Fin shardCount) (commands : List (Command Bytes)) :
    let store := ((empty place).applyAll commands).2
    let history := (empty place).history commands
    (((empty place).applyAll commands).1, store.get?) =
        FlatMap.respondAll (fun _ => none) commands ∧
      (∀ (command : Command Bytes) (other : Bytes), other ≠ command.key →
        (store.apply command).2.get? other = store.get? other) ∧
      (∀ index : Fin shardCount,
        ((store.shards.get index).map Prod.fst).Nodup ∧
          ∀ binding ∈ store.shards.get index,
            place binding.1 = index ∧ binding.2 ≠ reserved) ∧
      (store.keys.Nodup ∧ (∀ key, key ∈ store.keys ↔ (store.get? key).isSome) ∧
        store.size = store.counters.keys ∧ store.size = UInt64.ofNat store.keys.length ∧
        (store.keys.length < UInt64.size →
          store.size.toNat = store.keys.length ∧
            (store.isEmpty = true ↔ ∀ key, store.get? key = none))) ∧
      (store.counters.gets = UInt64.ofNat (commands.countP fun command => command.verb = .get) ∧
        store.counters.deletes =
          UInt64.ofNat (commands.countP fun command => command.verb = .delete) ∧
        store.counters.puts = UInt64.ofNat (history.countP Operation.isAccepted) ∧
        store.counters.refused = UInt64.ofNat (history.countP Operation.isRefused)) ∧
      ∀ key : Bytes,
        store.put key reserved =
          (.error (.reservedValue reserved),
            { store with
              counters := { store.counters with refused := store.counters.refused + 1 } }) := by
  intro store history
  have hsound : store.Sound := (sound_empty place).applyAll commands
  have hplace : store.place = place := place_applyAll (empty place) commands
  have hmap := (applyAll_eq_respondAll (keysDistinct_empty place) commands).1
  rw [show (empty place).get? = fun _ => none from funext (get?_empty place)] at hmap
  have hcounters : store.counters = Counters.after ⟨0, 0, 0, 0, 0⟩ history :=
    counters_applyAll (empty place) commands
  refine ⟨hmap, ?_, ?_, ⟨hsound.nodup_keys, hsound.mem_keys_iff, rfl, ?_, ?_⟩,
    ⟨?_, ?_, ?_, ?_⟩, ?_⟩
  · intro command other hne
    have happly := congrArg Prod.snd (apply_eq_respond hsound.distinct command).1
    rw [show (store.apply command).2.get? = _ from happly]
    exact FlatMap.respond_of_ne hne
  · intro index
    refine ⟨hsound.distinct index, ?_⟩
    intro binding hmem
    exact ⟨hplace ▸ hsound.inPlace index binding hmem, hsound.unreserved index binding hmem⟩
  · rw [length_keys]
    exact hsound.counted
  · intro hlt
    exact ⟨hsound.toNat_size hlt, hsound.isEmpty_iff hlt⟩
  · rw [hcounters, ← countP_verb_history (empty place) commands .get]
    exact UInt64.zero_add _
  · rw [hcounters, ← countP_verb_history (empty place) commands .delete]
    exact UInt64.zero_add _
  · rw [hcounters]
    exact UInt64.zero_add _
  · rw [hcounters]
    exact UInt64.zero_add _
  · intro key
    rw [put, if_pos rfl, count]

/-- Three keys in one shard, of which one is bound twice and one is removed
twice, and a value that is refused. -/
theorem behaves_as_one_map_in_one_shard :
    let place : Bytes → Fin shardCount := fun _ => ⟨7, by decide⟩
    let commands : List (Command Bytes) :=
      [.put [1] [10], .put [2] [20], .put [1] [11], .put [3] reserved, .delete [2], .delete [2],
        .get [1]]
    let store := ((empty place).applyAll commands).2
    ((empty place).applyAll commands).1 =
        [.stored true, .stored true, .stored false, .refused (.reservedValue reserved),
          .deleted true, .deleted false, .found (some [11])] ∧
      store.keys.length < UInt64.size ∧ store.size.toNat = store.keys.length ∧
      store.keys.length = 1 ∧
      [2] ≠ (Command.delete [1] : Command Bytes).key ∧
      (store.apply (.delete [1])).2.get? [2] = store.get? [2] := by
  intro place commands store
  obtain ⟨hmap, hother, -, ⟨-, -, -, -, hsize⟩, -⟩ := behaves_as_one_map place commands
  have hlength : store.keys.length = 1 := by decide +kernel
  have hlt : store.keys.length < UInt64.size := by
    rw [hlength]
    decide
  have hne : [2] ≠ (Command.delete [1] : Command Bytes).key := by decide
  refine ⟨?_, hlt, (hsize hlt).1, hlength, hne, hother (.delete [1]) [2] hne⟩
  exact (congrArg Prod.fst hmap).trans (by decide +kernel)

end Store

end LineStore
