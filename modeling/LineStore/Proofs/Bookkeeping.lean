import LineStore.Proofs.FlatMap

/-!
# What the store counts

The counters of a store are kept beside its bindings.  This module reads both
off the answers: an operation, together with what the store answered to it,
says by how much every counter and the number of bindings have moved.

* `Store.history` pairs operations with their answers, and
  `Store.Counters.after` are the counters that such a history leads to.
* `Store.counters_apply` and `Store.counters_applyAll`: a store counts what its
  history says, whatever its counters were before.
* `Store.length_toList_apply` and `Store.length_toList_applyAll`: so does the
  number of its bindings, which no counter takes part in.
* `Store.operations_apply`: of the counters of operations, one goes up.
-/

namespace LineStore

/-! ## The size of a shard -/

namespace Shard

theorem length_insert (shard : Shard) (key value : Bytes) :
    (insert shard key value).length =
      shard.length + if (get? shard key).isNone then 1 else 0 := by
  induction shard with
  | nil => rfl
  | cons binding shard ih =>
    obtain ⟨k, v⟩ := binding
    rw [insert, get?_cons]
    by_cases hk : k = key
    · simp [hk]
    · rw [if_neg hk, if_neg (Ne.symm hk), List.length_cons, List.length_cons, ih]
      omega

theorem length_erase (shard : Shard) (key : Bytes) :
    (erase shard key).length + (if (get? shard key).isSome then 1 else 0) = shard.length := by
  induction shard with
  | nil => rfl
  | cons binding shard ih =>
    obtain ⟨k, v⟩ := binding
    rw [get?_cons]
    by_cases hk : k = key
    · simp [erase, hk]
    · have herase : erase ((k, v) :: shard) key = (k, v) :: erase shard key := by
        simp [erase, hk]
      rw [herase, if_neg (Ne.symm hk), List.length_cons, List.length_cons, ← ih]
      omega

end Shard

/-! ## The number of bindings -/

namespace Store

theorem length_flatten_set {α : Type} {parts : List (List α)} {index : Nat}
    (h : index < parts.length) (part : List α) :
    (parts.set index part).flatten.length + parts[index].length =
      parts.flatten.length + part.length := by
  induction parts generalizing index with
  | nil => simp at h
  | cons first rest ih =>
    cases index with
    | zero =>
      simp only [List.set_cons_zero, List.flatten_cons, List.length_append,
        List.getElem_cons_zero]
      omega
    | succ index =>
      have hrest := ih (Nat.lt_of_succ_lt_succ h)
      simp only [List.set_cons_succ, List.flatten_cons, List.length_append,
        List.getElem_cons_succ]
      omega

/-- A change of one shard changes the number of bindings by as much as it
changes the size of this shard. -/
theorem length_toList_modifyShard (store : Store) (key : Bytes) (change : Shard → Shard) :
    (store.modifyShard key change).toList.length +
        (store.shards.get (store.place key)).length =
      store.toList.length + (change (store.shards.get (store.place key))).length := by
  have hlt : (store.place key).val < store.shards.toList.length := by
    rw [Vector.length_toList]
    exact (store.place key).isLt
  exact length_flatten_set hlt _

@[simp] theorem toList_count (store : Store) (change : Counters → Counters) :
    (store.count change).toList = store.toList := rfl

theorem length_toList_insert (store : Store) (key value : Bytes) :
    (store.modifyShard key (·.insert key value)).toList.length =
      store.toList.length + if (store.get? key).isNone then 1 else 0 := by
  have hmodify := length_toList_modifyShard store key (·.insert key value)
  rw [Shard.length_insert] at hmodify
  unfold get?
  omega

theorem length_toList_erase (store : Store) (key : Bytes) :
    (store.modifyShard key (·.erase key)).toList.length +
      (if (store.get? key).isSome then 1 else 0) = store.toList.length := by
  have hmodify := length_toList_modifyShard store key (·.erase key)
  have herase := Shard.length_erase (store.shards.get (store.place key)) key
  unfold get?
  omega

/-! ## Operations and their answers -/

/-- An operation that was done: what was asked for, and what the answer was. -/
abbrev Operation := Command Bytes × Answer

namespace Operation

/-- Tells whether the operation bound a key that was not bound. -/
@[simp] def creates (operation : Operation) : Bool :=
  operation.2 = .stored true

/-- Tells whether the operation removed a key that was bound. -/
@[simp] def removes (operation : Operation) : Bool :=
  operation.2 = .deleted true

@[simp] def isAccepted (operation : Operation) : Bool :=
  match operation.2 with
  | .stored _ => true
  | _ => false

@[simp] def isRefused (operation : Operation) : Bool :=
  match operation.2 with
  | .refused _ => true
  | _ => false

end Operation

/-- Operations done one after another, each with its answer. -/
def history (store : Store) (commands : List (Command Bytes)) : List Operation :=
  commands.zip (store.applyAll commands).1

/-- The counters after the operations of a history. -/
def Counters.after (counters : Counters) (history : List Operation) : Counters where
  keys := counters.keys + UInt64.ofNat (history.countP Operation.creates) -
    UInt64.ofNat (history.countP Operation.removes)
  gets := counters.gets + UInt64.ofNat (history.countP fun operation => operation.1.verb = .get)
  puts := counters.puts + UInt64.ofNat (history.countP Operation.isAccepted)
  deletes := counters.deletes +
    UInt64.ofNat (history.countP fun operation => operation.1.verb = .delete)
  refused := counters.refused + UInt64.ofNat (history.countP Operation.isRefused)

theorem history_cons (store : Store) (command : Command Bytes)
    (rest : List (Command Bytes)) :
    store.history (command :: rest) =
      (command, (store.apply command).1) :: (store.apply command).2.history rest :=
  rfl

theorem Counters.after_append (counters : Counters) (history more : List Operation) :
    counters.after (history ++ more) = (counters.after history).after more := by
  simp only [after, List.countP_append, UInt64.ofNat_add, Counters.mk.injEq]
  grind

/-! ## One operation -/

theorem counters_apply (store : Store) (command : Command Bytes) :
    (store.apply command).2.counters =
      store.counters.after [(command, (store.apply command).1)] := by
  cases command with
  | put key value =>
    by_cases hv : value = reserved
    · simp [apply_put, put, hv, count, Counters.after, Command.verb]
    · cases hkey : store.get? key <;>
        simp [apply_put, put, hv, hkey, count, modifyShard, Counters.after, Command.verb]
  | get key => simp [apply, get, count, Counters.after, Command.verb]
  | delete key =>
    cases hkey : store.get? key <;>
      simp [apply, delete, hkey, count, modifyShard, Counters.after, Command.verb]

theorem length_toList_apply (store : Store) (command : Command Bytes) :
    (store.apply command).2.toList.length +
        [(command, (store.apply command).1)].countP Operation.removes =
      store.toList.length + [(command, (store.apply command).1)].countP Operation.creates := by
  cases command with
  | put key value =>
    by_cases hv : value = reserved
    · simp [apply_put, put, hv]
    · cases hkey : store.get? key <;>
        simp [apply_put, put, hv, hkey, length_toList_insert]
  | get key => simp [apply, get]
  | delete key =>
    have herase := length_toList_erase (store.count fun c => { c with deletes := c.deletes + 1 })
      key
    cases hkey : store.get? key with
    | none => simpa [apply, delete, hkey] using herase
    | some value => simpa [apply, delete, hkey] using herase

/-- The number of operations done on a store, whatever they were and whether
they were refused. -/
def Counters.operations (counters : Counters) : UInt64 :=
  counters.gets + counters.puts + counters.refused + counters.deletes

theorem operations_apply (store : Store) (command : Command Bytes) :
    (store.apply command).2.counters.operations = store.counters.operations + 1 := by
  cases command with
  | put key value => grind [apply, put, count, modifyShard, Counters.operations]
  | get key => grind [apply, get, count, Counters.operations]
  | delete key => grind [apply, delete, count, modifyShard, Counters.operations]

/-! ## Any number of operations -/

theorem counters_applyAll (store : Store) (commands : List (Command Bytes)) :
    (store.applyAll commands).2.counters = store.counters.after (store.history commands) := by
  induction commands generalizing store with
  | nil => simp [applyAll, history, Counters.after]
  | cons command rest ih =>
    have hrest := ih (store.apply command).2
    rw [counters_apply, ← Counters.after_append] at hrest
    exact hrest

theorem length_toList_applyAll (store : Store) (commands : List (Command Bytes)) :
    (store.applyAll commands).2.toList.length +
        (store.history commands).countP Operation.removes =
      store.toList.length + (store.history commands).countP Operation.creates := by
  induction commands generalizing store with
  | nil => rfl
  | cons command rest ih =>
    have hfirst := length_toList_apply store command
    have hrest := ih (store.apply command).2
    show ((store.apply command).2.applyAll rest).2.toList.length + _ = _
    rw [history_cons, ← List.singleton_append, List.countP_append, List.countP_append]
    omega

end Store

end LineStore
