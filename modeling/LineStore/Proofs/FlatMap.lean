import LineStore.Command.Execution
import Mathlib.Data.List.Basic
import Mathlib.Logic.Function.Basic

/-!
# The store as one map

A store spreads its bindings over shards and keeps counters.  None of this
shows in a reply: `FlatMap` is a plain function from keys to values, and
`FlatMap.answerLines` answers request lines with nothing but such a function.

* `Shard.get?_insert` and `Shard.get?_erase` are the laws of one shard.
* `Store.get?_put` and `Store.get?_delete` lift them to the store: an
  operation changes what its own key reads, in whichever shard it is, and no
  other key.
* `Store.KeysDistinct` is what the removal of a key rests on: no shard holds a
  key twice.
* `FlatMap.respond` is an operation on the map alone.  `Store.apply_eq_respond`
  and `Store.applyAll_eq_respondAll` are the simulation of a store by its map.
* `executeLines_eq_answerLines` is the same for request lines.
-/

namespace LineStore

/-! ## One shard -/

namespace Shard

variable {shard : Shard} {key other value : Bytes}

@[simp] theorem get?_nil (key : Bytes) : get? [] key = none := rfl

theorem get?_cons (binding : Bytes × Bytes) (shard : Shard) (key : Bytes) :
    get? (binding :: shard) key = if key = binding.1 then some binding.2 else get? shard key := by
  obtain ⟨k, v⟩ := binding
  unfold get?
  rw [List.lookup_cons]
  by_cases h : key = k
  · rw [beq_iff_eq.mpr h, if_pos h]
  · rw [beq_eq_false_iff_ne.mpr h, if_neg h]

theorem get?_eq_none (h : key ∉ shard.map Prod.fst) : get? shard key = none := by
  refine List.lookup_eq_none_iff.mpr ?_
  intro binding hmem
  rw [bne_iff_ne]
  rintro rfl
  exact h (List.mem_map_of_mem hmem)

theorem get?_insert (shard : Shard) (key value other : Bytes) :
    get? (insert shard key value) other =
      if other = key then some value else get? shard other := by
  induction shard with
  | nil => rw [insert, get?_cons]
  | cons binding shard ih =>
    obtain ⟨k, v⟩ := binding
    rw [insert]
    by_cases hk : k = key
    · subst hk
      rw [if_pos rfl, get?_cons, get?_cons]
      split <;> rfl
    · rw [if_neg hk, get?_cons, get?_cons, ih]
      by_cases ho : other = k
      · simp [ho, hk]
      · simp [ho]

/-- A key that was removed reads nothing, if no shard held it twice, and other
keys read what they read before. -/
theorem get?_erase (h : (shard.map Prod.fst).Nodup) (key other : Bytes) :
    get? (erase shard key) other = if other = key then none else get? shard other := by
  induction shard with
  | nil => simp [erase]
  | cons binding shard ih =>
    obtain ⟨k, v⟩ := binding
    rw [List.map_cons, List.nodup_cons] at h
    by_cases hk : k = key
    · subst hk
      have herase : erase ((k, v) :: shard) k = shard := by simp [erase]
      rw [herase, get?_cons]
      by_cases ho : other = k
      · rw [if_pos ho, ho, get?_eq_none h.1]
      · rw [if_neg ho, if_neg ho]
    · have herase : erase ((k, v) :: shard) key = (k, v) :: erase shard key := by
        simp [erase, hk]
      rw [herase, get?_cons, get?_cons, ih h.2]
      by_cases ho : other = k
      · simp [ho, hk]
      · simp [ho]

theorem mem_keys_insert (h : other ∈ (insert shard key value).map Prod.fst) :
    other = key ∨ other ∈ shard.map Prod.fst := by
  induction shard with
  | nil => simpa [insert] using h
  | cons binding shard ih =>
    obtain ⟨k, v⟩ := binding
    rw [insert] at h
    split at h
    · rename_i hk
      subst hk
      exact .inr (by simpa using h)
    · rcases List.mem_cons.mp h with hk | hmem
      · exact .inr (List.mem_cons.mpr (.inl hk))
      · exact (ih hmem).imp_right (List.mem_cons_of_mem k)

theorem nodup_insert (h : (shard.map Prod.fst).Nodup) (key value : Bytes) :
    ((insert shard key value).map Prod.fst).Nodup := by
  induction shard with
  | nil => simp [insert]
  | cons binding shard ih =>
    obtain ⟨k, v⟩ := binding
    rw [List.map_cons, List.nodup_cons] at h
    rw [insert]
    split
    · rename_i hk
      rw [List.map_cons, List.nodup_cons]
      exact ⟨hk ▸ h.1, h.2⟩
    · rename_i hk
      rw [List.map_cons, List.nodup_cons]
      refine ⟨?_, ih h.2⟩
      intro hmem
      rcases mem_keys_insert hmem with hkey | hold
      · exact hk hkey
      · exact h.1 hold

theorem nodup_erase (h : (shard.map Prod.fst).Nodup) (key : Bytes) :
    ((erase shard key).map Prod.fst).Nodup :=
  h.sublist (List.eraseP_sublist.map Prod.fst)

end Shard

/-! ## The sharded store -/

namespace Store

/-- No shard holds a key twice. -/
def KeysDistinct (store : Store) : Prop :=
  ∀ index : Fin shardCount, ((store.shards.get index).map Prod.fst).Nodup

theorem keysDistinct_empty (place : Bytes → Fin shardCount) : (empty place).KeysDistinct := by
  intro index
  show (((Vector.replicate shardCount ([] : Shard))[index.val]).map Prod.fst).Nodup
  simp

theorem get?_empty (place : Bytes → Fin shardCount) (key : Bytes) :
    (empty place).get? key = none := by
  show Shard.get? ((Vector.replicate shardCount ([] : Shard))[(place key).val]) key = none
  simp

@[simp] theorem get?_count (store : Store) (change : Counters → Counters) (key : Bytes) :
    (store.count change).get? key = store.get? key := rfl

@[simp] theorem keysDistinct_count {store : Store} {change : Counters → Counters} :
    (store.count change).KeysDistinct ↔ store.KeysDistinct := Iff.rfl

theorem get_set {α : Type} (parts : Vector α shardCount) (index other : Fin shardCount)
    (part : α) :
    (parts.set index part).get other = if other = index then part else parts.get other := by
  show (parts.set index part)[other.val] = _
  rw [Vector.getElem_set]
  by_cases h : other = index
  · rw [if_pos h, if_pos (congrArg Fin.val h.symm)]
  · rw [if_neg h, if_neg fun hv => h (Fin.ext hv.symm)]
    rfl

theorem get_modifyShard (store : Store) (key : Bytes) (change : Shard → Shard)
    (index : Fin shardCount) :
    (store.modifyShard key change).shards.get index =
      if index = store.place key then change (store.shards.get index)
      else store.shards.get index := by
  refine (get_set _ _ _ _).trans ?_
  split
  · rename_i h
    rw [h]
  · rfl

theorem get?_modifyShard (store : Store) (key other : Bytes) (change : Shard → Shard) :
    (store.modifyShard key change).get? other =
      if store.place other = store.place key then
        (change (store.shards.get (store.place other))).get? other
      else store.get? other := by
  show ((store.modifyShard key change).shards.get (store.place other)).get? other = _
  rw [get_modifyShard]
  split <;> rfl

theorem keysDistinct_modifyShard {store : Store} (h : store.KeysDistinct) (key : Bytes)
    {change : Shard → Shard}
    (hchange : ∀ shard : Shard, (shard.map Prod.fst).Nodup →
      ((change shard).map Prod.fst).Nodup) :
    (store.modifyShard key change).KeysDistinct := by
  intro index
  rw [get_modifyShard]
  split
  · exact hchange _ (h index)
  · exact h index

variable {store : Store}

/-- A change that binds or unbinds a key in its shard does so in the store: the
other shards are asked for other keys only. -/
theorem get?_modifyShard_of_update {key : Bytes} {change : Shard → Shard}
    {value? : Option Bytes}
    (hchange : ∀ (index : Fin shardCount) (other : Bytes),
      (change (store.shards.get index)).get? other =
        if other = key then value? else (store.shards.get index).get? other)
    (other : Bytes) :
    (store.modifyShard key change).get? other =
      if other = key then value? else store.get? other := by
  rw [get?_modifyShard]
  split
  · exact hchange (store.place other) other
  · rename_i hplace
    have hother : other ≠ key := fun ho => hplace (congrArg store.place ho)
    rw [if_neg hother]

/-- A `put` of a value that is not reserved binds its key, and no other. -/
theorem get?_put {value : Bytes} (hv : value ≠ reserved) (key other : Bytes) :
    (store.put key value).2.get? other =
      if other = key then some value else store.get? other := by
  have hbound : ((store.count fun c => { c with puts := c.puts + 1 }).modifyShard key
      (·.insert key value)).get? other =
        if other = key then some value else store.get? other :=
    get?_modifyShard_of_update (fun _ => Shard.get?_insert _ key value) other
  unfold put
  rw [if_neg hv]
  dsimp only
  split
  · rw [get?_count, hbound]
  · exact hbound

theorem get?_delete (h : store.KeysDistinct) (key other : Bytes) :
    (store.delete key).2.get? other = if other = key then none else store.get? other := by
  have hunbound : ((store.count fun c => { c with deletes := c.deletes + 1 }).modifyShard key
      (·.erase key)).get? other = if other = key then none else store.get? other :=
    get?_modifyShard_of_update (fun index => Shard.get?_erase (h index) key) other
  unfold delete
  dsimp only
  split
  · rw [get?_count, hunbound]
  · exact hunbound

theorem keysDistinct_put (h : store.KeysDistinct) (key value : Bytes) :
    (store.put key value).2.KeysDistinct := by
  have hinsert : ((store.count fun c => { c with puts := c.puts + 1 }).modifyShard key
      (·.insert key value)).KeysDistinct :=
    keysDistinct_modifyShard h key fun _ hs => Shard.nodup_insert hs key value
  unfold put
  split
  · exact h
  · dsimp only
    split
    · exact hinsert
    · exact hinsert

theorem keysDistinct_delete (h : store.KeysDistinct) (key : Bytes) :
    (store.delete key).2.KeysDistinct := by
  have herase : ((store.count fun c => { c with deletes := c.deletes + 1 }).modifyShard key
      (·.erase key)).KeysDistinct :=
    keysDistinct_modifyShard h key fun _ hs => Shard.nodup_erase hs key
  unfold delete
  dsimp only
  split
  · exact herase
  · exact herase

end Store

/-! ## One map -/

/-- A map from keys to values. -/
abbrev FlatMap := Bytes → Option Bytes

namespace FlatMap

/-- What an operation on a map answers, and the map after it. -/
def respond (map : FlatMap) : Command Bytes → Store.Answer × FlatMap
  | .put key value =>
    if value = Store.reserved then (.refused (.reservedValue value), map)
    else (.stored (map key).isNone, Function.update map key (some value))
  | .get key => (.found (map key), map)
  | .delete key => (.deleted (map key).isSome, Function.update map key none)

/-- An operation on one key changes what no other key reads. -/
theorem respond_of_ne {map : FlatMap} {command : Command Bytes} {key : Bytes}
    (h : key ≠ command.key) : (map.respond command).2 key = map key := by
  cases command with
  | put other value =>
    simp only [respond]
    split
    · rfl
    · exact Function.update_of_ne h _ _
  | get other => rfl
  | delete other => exact Function.update_of_ne h _ _

/-- Maps that agree on the key of an operation give the same answer to it, and go on
agreeing wherever they agreed. -/
theorem respond_congr {map map' : FlatMap} {command : Command Bytes}
    (h : map command.key = map' command.key) :
    (map.respond command).1 = (map'.respond command).1 ∧
      ∀ other, map other = map' other →
        (map.respond command).2 other = (map'.respond command).2 other := by
  cases command with
  | put key value =>
    have hisNone : (map key).isNone = (map' key).isNone := congrArg Option.isNone h
    simp only [respond]
    split
    · exact ⟨rfl, fun _ ho => ho⟩
    · refine ⟨congrArg Store.Answer.stored hisNone, ?_⟩
      intro other ho
      simp only [Function.update_apply, ho]
  | get key => exact ⟨congrArg Store.Answer.found h, fun _ ho => ho⟩
  | delete key =>
    have hisSome : (map key).isSome = (map' key).isSome := congrArg Option.isSome h
    refine ⟨congrArg Store.Answer.deleted hisSome, ?_⟩
    intro other ho
    simp only [respond, Function.update_apply, ho]

/-- The answers to a sequence of operations, and the map after them. -/
def respondAll (map : FlatMap) : List (Command Bytes) → List Store.Answer × FlatMap
  | [] => ([], map)
  | command :: rest =>
    let (answer, next) := map.respond command
    let (answers, last) := respondAll next rest
    (answer :: answers, last)

/-- What a map answers to a command, and the map after it. -/
def answer (map : FlatMap) : Command Bytes → Reply × FlatMap
  | .put key value =>
    if value = Store.reserved then (.reservedKeyword value, map)
    else (.ok, Function.update map key (some value))
  | .get key =>
    match map key with
    | some value => (.value value, map)
    | none => (.notFound, map)
  | .delete key =>
    if (map key).isSome then (.ok, Function.update map key none) else (.notFound, map)

def answerLine (map : FlatMap) (line : Bytes) : Reply × FlatMap :=
  match Command.ofLine line with
  | .ok command => map.answer (command.map Text.Word.bytes)
  | .error _ => (.invalidInput, map)

/-- What a map answers to request lines, one after another, and the map after
them. -/
def answerLines (map : FlatMap) : List Bytes → List Reply × FlatMap
  | [] => ([], map)
  | line :: rest =>
    let (reply, next) := map.answerLine line
    let (replies, last) := answerLines next rest
    (reply :: replies, last)

end FlatMap

/-! ## The simulation -/

namespace Store

theorem apply_put (store : Store) (key value : Bytes) :
    store.apply (.put key value) =
      (if value = reserved then .refused (.reservedValue value)
        else .stored (store.get? key).isNone, (store.put key value).2) := by
  by_cases hv : value = reserved
  · simp [apply, put, hv]
  · simp [apply, put, hv]

/-- An operation on a store is answered as by its map, and leaves the map's
successor. -/
theorem apply_eq_respond {store : Store} (h : store.KeysDistinct) (command : Command Bytes) :
    ((store.apply command).1, (store.apply command).2.get?) =
        FlatMap.respond store.get? command ∧
      (store.apply command).2.KeysDistinct := by
  cases command with
  | put key value =>
    rw [apply_put, FlatMap.respond]
    refine ⟨?_, keysDistinct_put h key value⟩
    by_cases hv : value = reserved
    · simp only [if_pos hv, put]
      rfl
    · rw [if_neg hv, if_neg hv]
      congr 1
      funext other
      rw [get?_put hv, Function.update_apply]
  | get key => exact ⟨rfl, h⟩
  | delete key =>
    refine ⟨?_, keysDistinct_delete h key⟩
    have hmap : (store.delete key).2.get? = Function.update store.get? key none := by
      funext other
      rw [get?_delete h, Function.update_apply]
    exact congrArg (Answer.deleted (store.get? key).isSome, ·) hmap

theorem applyAll_eq_respondAll {store : Store} (h : store.KeysDistinct)
    (commands : List (Command Bytes)) :
    ((store.applyAll commands).1, (store.applyAll commands).2.get?) =
        FlatMap.respondAll store.get? commands ∧
      (store.applyAll commands).2.KeysDistinct := by
  induction commands generalizing store with
  | nil => exact ⟨rfl, h⟩
  | cons command rest ih =>
    obtain ⟨hfirst, hdistinct⟩ := apply_eq_respond h command
    obtain ⟨hrest, hlast⟩ := ih hdistinct
    refine ⟨?_, hlast⟩
    simp only [applyAll, FlatMap.respondAll, ← hfirst, ← hrest]

end Store

/-- The reply to a command reports what the operation on the map answers. -/
theorem FlatMap.answer_eq_respond (map : FlatMap) (command : Command Bytes) :
    map.answer command = ((map.respond command).1.reply, (map.respond command).2) := by
  cases command with
  | put key value =>
    simp only [answer, respond]
    split <;> rfl
  | get key => cases hkey : map key <;> simp [answer, respond, hkey, Store.Answer.reply]
  | delete key =>
    cases hkey : map key with
    | none =>
      -- the map answers without a change, and the operation removes what is not there
      have hsame : Function.update map key none = map := by
        rw [← hkey, Function.update_eq_self]
      simp [answer, respond, hkey, Store.Answer.reply, hsame]
    | some value => simp [answer, respond, hkey, Store.Answer.reply]

namespace Command

variable {store : Store}

theorem store_execute_put (store : Store) (key value : Bytes) :
    (execute store (.put key value)).store = (store.put key value).2 := by
  rw [execute, Store.apply_put]

theorem reply_execute_put (store : Store) (key value : Bytes) :
    (execute store (.put key value)).reply =
      if value = Store.reserved then .reservedKeyword value else .ok := by
  simp only [execute, Store.apply_put]
  split <;> rfl

theorem reply_execute_get (store : Store) (key : Bytes) :
    (execute store (.get key)).reply = (Store.Answer.found (store.get? key)).reply := rfl

theorem reply_execute_delete (store : Store) (key : Bytes) :
    (execute store (.delete key)).reply = (Store.Answer.deleted (store.get? key).isSome).reply :=
  rfl

/-- A store answers a command as its map does, and is left with the map's
successor. -/
theorem execute_eq_answer (h : store.KeysDistinct) (command : Command Bytes) :
    ((execute store command).reply, (execute store command).store.get?) =
        FlatMap.answer store.get? command ∧
      (execute store command).store.KeysDistinct := by
  obtain ⟨happly, hdistinct⟩ := Store.apply_eq_respond h command
  refine ⟨?_, hdistinct⟩
  rw [FlatMap.answer_eq_respond, ← happly]
  rfl

theorem executeLine_eq_answerLine (h : store.KeysDistinct) (line : Bytes) :
    ((executeLine store line).reply, (executeLine store line).store.get?) =
        FlatMap.answerLine store.get? line ∧
      (executeLine store line).store.KeysDistinct := by
  unfold executeLine FlatMap.answerLine
  cases ofLine line with
  | error error => exact ⟨rfl, h⟩
  | ok command => exact execute_eq_answer h (command.map Text.Word.bytes)

/-- A store answers lines as its map does: the same replies, and the map that
they leave. -/
theorem executeLines_eq_answerLines (h : store.KeysDistinct) (lines : List Bytes) :
    ((executeLines store lines).1, (executeLines store lines).2.get?) =
        FlatMap.answerLines store.get? lines ∧
      (executeLines store lines).2.KeysDistinct := by
  induction lines generalizing store with
  | nil => exact ⟨rfl, h⟩
  | cons line lines ih =>
    obtain ⟨hline, hdistinct⟩ := executeLine_eq_answerLine h line
    obtain ⟨hlines, hlast⟩ := ih hdistinct
    refine ⟨?_, hlast⟩
    simp only [executeLines, FlatMap.answerLines, ← hline, ← hlines]

end Command

end LineStore
