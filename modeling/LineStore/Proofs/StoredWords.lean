import LineStore.Proofs.FlatMap
import LineStore.Proofs.RequestGrammar

/-!
# What is in a store

Every binding of a store was put there by a request line.  The line was read
word by word, so keys and values are words, and no value is the reserved one.

* `Store.AllBindings` says that something is true of all bindings of a store.
  It is kept by every operation that does not bind anything else.
* `Bytes.IsWord` is the form of stored keys and values.
* `Command.holdsWords_executeLines` is the result: whatever lines a store
  executes, it holds words.
-/

namespace LineStore

/-! ## Bindings of a store -/

namespace Shard

variable {shard : Shard} {key value : Bytes} {binding : Bytes × Bytes}

theorem mem_insert (h : binding ∈ insert shard key value) :
    binding = (key, value) ∨ binding ∈ shard := by
  induction shard with
  | nil => exact .inl (List.mem_singleton.mp h)
  | cons other shard ih =>
    obtain ⟨k, v⟩ := other
    rw [insert] at h
    split at h
    · exact (List.mem_cons.mp h).imp_right (List.mem_cons_of_mem _)
    · rcases List.mem_cons.mp h with rfl | hmem
      · exact .inr List.mem_cons_self
      · exact (ih hmem).imp_right (List.mem_cons_of_mem _)

theorem mem_of_mem_erase (h : binding ∈ erase shard key) : binding ∈ shard :=
  List.mem_of_mem_eraseP h

theorem mem_of_get? (h : shard.get? key = some value) : (key, value) ∈ shard := by
  induction shard with
  | nil => simp at h
  | cons other shard ih =>
    obtain ⟨k, v⟩ := other
    rw [get?_cons] at h
    split at h
    · rename_i hk
      obtain rfl : v = value := Option.some.inj h
      rw [hk]
      exact List.mem_cons_self
    · exact List.mem_cons_of_mem _ (ih h)

end Shard

namespace Store

/-- All bindings of a store have a property. -/
def AllBindings (P : Bytes × Bytes → Prop) (store : Store) : Prop :=
  ∀ index : Fin shardCount, ∀ binding ∈ store.shards.get index, P binding

variable {P : Bytes × Bytes → Prop} {store : Store} {key value : Bytes}

theorem allBindings_empty (place : Bytes → Fin shardCount) : (empty place).AllBindings P := by
  intro index binding hmem
  have hnone : binding ∈ (Vector.replicate shardCount ([] : Shard))[index.val] := hmem
  simp at hnone

theorem AllBindings.of_mem_toList (h : store.AllBindings P) {binding : Bytes × Bytes}
    (hmem : binding ∈ store.toList) : P binding := by
  obtain ⟨shard, hshard, hbinding⟩ := List.mem_flatten.mp hmem
  obtain ⟨index, hlt, rfl⟩ := Vector.getElem_of_mem (Vector.mem_toList_iff.mp hshard)
  exact h ⟨index, hlt⟩ binding hbinding

theorem AllBindings.of_get? (h : store.AllBindings P) (hget : store.get? key = some value) :
    P (key, value) :=
  h (store.place key) _ (Shard.mem_of_get? hget)

theorem AllBindings.modifyShard (h : store.AllBindings P) {change : Shard → Shard}
    (hchange : ∀ shard : Shard, ∀ binding ∈ change shard, P binding ∨ binding ∈ shard) :
    (store.modifyShard key change).AllBindings P := by
  intro index binding hmem
  rw [get_modifyShard] at hmem
  split at hmem
  · rcases hchange _ binding hmem with hnew | hold
    · exact hnew
    · exact h index binding hold
  · exact h index binding hmem

theorem AllBindings.put (h : store.AllBindings P) (hnew : value ≠ reserved → P (key, value)) :
    (store.put key value).2.AllBindings P := by
  unfold Store.put
  split
  · exact h
  · rename_i hv
    have hcount : (store.count fun c => { c with puts := c.puts + 1 }).AllBindings P := h
    have hinsert : ((store.count fun c => { c with puts := c.puts + 1 }).modifyShard key
        (·.insert key value)).AllBindings P := by
      refine hcount.modifyShard ?_
      intro shard binding hmem
      rcases Shard.mem_insert hmem with rfl | hold
      · exact .inl (hnew hv)
      · exact .inr hold
    dsimp only
    split
    · exact hinsert
    · exact hinsert

theorem AllBindings.delete (h : store.AllBindings P) : (store.delete key).2.AllBindings P := by
  have hcount : (store.count fun c => { c with deletes := c.deletes + 1 }).AllBindings P := h
  have herase : ((store.count fun c => { c with deletes := c.deletes + 1 }).modifyShard key
      (·.erase key)).AllBindings P :=
    hcount.modifyShard fun _ _ hmem => .inr (Shard.mem_of_mem_erase hmem)
  unfold Store.delete
  dsimp only
  split
  · exact herase
  · exact herase

end Store

/-! ## Words -/

/-- Bytes that are the encoding of one word: not empty, and without a blank. -/
def Bytes.IsWord (bytes : Bytes) : Prop :=
  ∃ text : List Char, Utf8.encode text = bytes ∧ Text.IsWord text

/-- What a binding made by a request line looks like. -/
structure Store.IsWordBinding (binding : Bytes × Bytes) : Prop where
  key : Bytes.IsWord binding.1
  value : Bytes.IsWord binding.2
  unreserved : binding.2 ≠ reserved

/-- A store that holds words only. -/
def Store.HoldsWords (store : Store) : Prop :=
  store.AllBindings IsWordBinding

namespace Command

variable {store : Store}

theorem isWord_arguments {line : Bytes} {command : Command Text.Word}
    (h : ofLine line = .ok command) :
    ∀ bytes ∈ (command.map Text.Word.bytes).arguments, Bytes.IsWord bytes := by
  rw [arguments_map]
  intro bytes hbytes
  obtain ⟨word, hword, rfl⟩ := List.mem_map.mp hbytes
  exact ⟨word.chars, rfl, isWord_of_ofLine h word hword⟩

theorem holdsWords_execute (h : store.HoldsWords) {command : Command Bytes}
    (hwords : ∀ bytes ∈ command.arguments, Bytes.IsWord bytes) :
    (execute store command).store.HoldsWords := by
  cases command with
  | put key value =>
    obtain ⟨hkey, hvalue⟩ := List.forall_mem_cons.mp hwords
    rw [store_execute_put]
    exact h.put fun hv => ⟨hkey, hvalue value List.mem_cons_self, hv⟩
  | get key => exact h
  | delete key => exact h.delete

theorem holdsWords_executeLine (h : store.HoldsWords) (line : Bytes) :
    (executeLine store line).store.HoldsWords := by
  unfold executeLine
  cases hline : ofLine line with
  | error error => exact h
  | ok command => exact holdsWords_execute h (isWord_arguments hline)

/-- A store that holds words goes on holding words, whatever lines it
executes. -/
theorem holdsWords_executeLines (h : store.HoldsWords) (lines : List Bytes) :
    (executeLines store lines).2.HoldsWords := by
  induction lines generalizing store with
  | nil => exact h
  | cons line lines ih => exact ih (holdsWords_executeLine h line)

end Command

end LineStore
