import LineStore.Proofs.Conservation

/-!
# What one request line does

A request line is done or it fails, and the reply tells which.  A line that
fails leaves every binding as it was.  A line that is done touches the key that
it names, and no other.

* `FlatMap.Fails` are the commands that fail, and `FlatMap.isError_answer_iff`
  says that these get an error reply and no others do.
  `FlatMap.answer_of_fails` and `FlatMap.answer_of_done` are what becomes of the
  map.
* `Store.Counters.done` and `Store.Counters.failed` are what a store counts of
  a command.
* `Command.Failed` and `Command.Done` are all that a command does to a store,
  and `Command.failed_execute` and `Command.done_execute` say so of any store in
  which no shard holds a key twice.
* The main result is about lines, of commands and of anything else.
-/

namespace LineStore

/-- What a command leaves bound to its key if it is done, given what was bound
to it before. -/
def Command.leaves (before : Option Bytes) : Command Bytes → Option Bytes
  | .put _ value => some value
  | .get _ => before
  | .delete _ => none

/-! ## On one map -/

namespace FlatMap

variable {map : FlatMap} {command : Command Bytes}

/-- The commands that fail: puts of the reserved value, and gets and deletes of
keys that are not bound. -/
def Fails (map : FlatMap) : Command Bytes → Prop
  | .put _ value => value = Store.reserved
  | .get key => map key = none
  | .delete key => map key = none

theorem isError_answer_iff : (map.answer command).1.isError = true ↔ map.Fails command := by
  cases command with
  | put key value =>
    by_cases hv : value = Store.reserved <;> simp [answer, Fails, hv, Reply.isError]
  | get key => cases hkey : map key <;> simp [answer, Fails, hkey, Reply.isError]
  | delete key => cases hkey : map key <;> simp [answer, Fails, hkey, Reply.isError]

theorem answer_of_fails (h : map.Fails command) : (map.answer command).2 = map := by
  cases command with
  | put key value =>
    have hv : value = Store.reserved := h
    simp [answer, hv]
  | get key =>
    have hkey : map key = none := h
    simp [answer, hkey]
  | delete key =>
    have hkey : map key = none := h
    simp [answer, hkey]

/-- A command that does not fail leaves its key as it should, and every other
key alone. -/
theorem answer_of_done (h : ¬ map.Fails command) :
    (map.answer command).2 =
      Function.update map command.key (command.leaves (map command.key)) := by
  cases command with
  | put key value =>
    have hv : value ≠ Store.reserved := h
    simp [answer, hv, Command.key, Command.leaves]
  | get key =>
    obtain ⟨value, hkey⟩ := Option.ne_none_iff_exists'.mp h
    rw [Command.leaves, Command.key, Function.update_eq_self]
    simp [answer, hkey]
  | delete key =>
    obtain ⟨value, hkey⟩ := Option.ne_none_iff_exists'.mp h
    simp [answer, hkey, Command.key, Command.leaves]

end FlatMap

/-! ## On the counters -/

namespace Store

/-- The counters with one more command that was done, but for the keys. -/
def Counters.done (counters : Counters) : Verb → Counters
  | .put => { counters with puts := counters.puts + 1 }
  | .get => { counters with gets := counters.gets + 1 }
  | .delete => { counters with deletes := counters.deletes + 1 }

/-- The counters with one more command that failed.  Only a put is counted apart
then. -/
def Counters.failed (counters : Counters) : Verb → Counters
  | .put => { counters with refused := counters.refused + 1 }
  | verb => counters.done verb

@[simp] theorem Counters.keys_failed (counters : Counters) (verb : Verb) :
    (counters.failed verb).keys = counters.keys := by
  cases verb <;> rfl

end Store

/-! ## On a store -/

namespace Command

variable {store : Store} {command : Command Bytes}

/-- What a command that fails does to a store: it is counted. -/
structure Failed (before : Store) (command : Command Bytes) (after : Store) : Prop where
  cause : FlatMap.Fails before.get? command
  reads : after.get? = before.get?
  counters : after.counters = before.counters.failed command.verb

/-- What a command that is done does to a store.  The key count moves as its key
comes or goes. -/
structure Done (before : Store) (command : Command Bytes) (after : Store) : Prop where
  allowed : ¬ FlatMap.Fails before.get? command
  reads : after.get? =
    Function.update before.get? command.key (command.leaves (before.get? command.key))
  counters : after.counters = { before.counters.done command.verb with keys := after.size }
  size : after.size + UInt64.ofNat (before.binds command.key).toNat =
    before.size + UInt64.ofNat (after.binds command.key).toNat

theorem isError_execute_iff (h : store.KeysDistinct) :
    (execute store command).reply.isError = true ↔ FlatMap.Fails store.get? command := by
  rw [(Prod.mk.inj (execute_eq_answer h command).1).1]
  exact FlatMap.isError_answer_iff

theorem store_execute_delete (store : Store) (key : Bytes) :
    (execute store (.delete key)).store = (store.delete key).2 := rfl

theorem counters_execute_of_fails (h : FlatMap.Fails store.get? command) :
    (execute store command).store.counters = store.counters.failed command.verb := by
  cases command with
  | put key value =>
    have hv : value = Store.reserved := h
    rw [store_execute_put, Store.put, if_pos hv]
    rfl
  | get key => rfl
  | delete key =>
    have hkey : store.get? key = none := h
    rw [store_execute_delete, Store.delete, hkey]
    rfl

theorem counters_execute_of_done (h : ¬ FlatMap.Fails store.get? command) :
    (execute store command).store.counters =
      { store.counters.done command.verb with keys := (execute store command).store.size } := by
  cases command with
  | put key value =>
    have hv : value ≠ Store.reserved := h
    rw [store_execute_put, Store.put, if_neg hv]
    cases hkey : store.get? key <;> rfl
  | get key => rfl
  | delete key =>
    obtain ⟨value, hkey⟩ := Option.ne_none_iff_exists'.mp h
    rw [store_execute_delete, Store.delete, hkey]
    rfl

theorem failed_execute (h : store.KeysDistinct) (hf : FlatMap.Fails store.get? command) :
    Failed store command (execute store command).store where
  cause := hf
  reads := by
    rw [(Prod.mk.inj (execute_eq_answer h command).1).2]
    exact FlatMap.answer_of_fails hf
  counters := counters_execute_of_fails hf

theorem reads_execute_of_done (h : store.KeysDistinct)
    (hd : ¬ FlatMap.Fails store.get? command) :
    (execute store command).store.get? =
      Function.update store.get? command.key (command.leaves (store.get? command.key)) := by
  rw [(Prod.mk.inj (execute_eq_answer h command).1).2]
  exact FlatMap.answer_of_done hd

theorem size_execute_of_done (h : store.KeysDistinct)
    (hd : ¬ FlatMap.Fails store.get? command) :
    (execute store command).store.size + UInt64.ofNat (store.binds command.key).toNat =
      store.size + UInt64.ofNat ((execute store command).store.binds command.key).toNat := by
  have hafter : (execute store command).store.get? command.key =
      command.leaves (store.get? command.key) := by
    rw [reads_execute_of_done h hd, Function.update_self]
  unfold Store.binds
  rw [hafter]
  cases command with
  | put key value =>
    have hv : value ≠ Store.reserved := hd
    rw [store_execute_put, Store.put, if_neg hv]
    cases hkey : store.get? key <;>
      simp [hkey, Command.key, leaves, Store.size, Store.count, Store.modifyShard]
  | get key => rfl
  | delete key =>
    obtain ⟨value, hkey⟩ := Option.ne_none_iff_exists'.mp hd
    rw [store_execute_delete, Store.delete, Command.key, hkey]
    exact (UInt64.sub_add_cancel _ _).trans (UInt64.add_zero _).symm

theorem done_execute (h : store.KeysDistinct) (hd : ¬ FlatMap.Fails store.get? command) :
    Done store command (execute store command).store where
  allowed := hd
  reads := reads_execute_of_done h hd
  counters := counters_execute_of_done hd
  size := size_execute_of_done h hd

/-! ## The main result -/

/-- One request line does one thing to a store, whatever operations made the
store and whatever bytes the line is.

* If it is answered with an error, then every key reads what it read before, and
  the key count is the same.  A line that is no request changes nothing at all;
  a command that fails moves the counter of its kind of failure.
* If not, then it is a command.  It moves the counter of its verb, it leaves its
  key as the verb says and every other key alone, and the key count moves as the
  key comes or goes. -/
theorem executeLine_effects (place : Bytes → Fin Store.shardCount)
    (commands : List (Command Bytes)) (line : Bytes) :
    let before := ((Store.empty place).applyAll commands).2
    let read := (ofLine line).map (Command.map Text.Word.bytes)
    let execution := executeLine before line
    (execution.reply.isError = true →
        execution.store.get? = before.get? ∧ execution.store.size = before.size ∧
          match read with
          | .error _ => execution.store = before
          | .ok command => Failed before command execution.store) ∧
      (execution.reply.isError = false →
        ∃ command, read = .ok command ∧ Done before command execution.store) := by
  intro before read execution
  have hdistinct : before.KeysDistinct :=
    (Store.applyAll_eq_respondAll (Store.keysDistinct_empty place) commands).2
  have hexecution : execution = executeRead before read := rfl
  rw [hexecution]
  cases read with
  | error error => exact ⟨fun _ => ⟨rfl, rfl, rfl⟩, fun h => Bool.noConfusion h⟩
  | ok command =>
    refine ⟨?_, ?_⟩
    · intro herror
      have hfailed := failed_execute hdistinct ((isError_execute_iff hdistinct).mp herror)
      have hsize : (execute before command).store.size = before.size := by
        rw [Store.size, hfailed.counters, Store.Counters.keys_failed]
        rfl
      exact ⟨hfailed.reads, hsize, hfailed⟩
    · intro hdone
      refine ⟨command, rfl, done_execute hdistinct ?_⟩
      rw [← isError_execute_iff hdistinct]
      exact Bool.not_eq_true _ ▸ hdone

/-- Of two keys in one shard, one is removed; and a put of the reserved value to
it is refused. -/
theorem executeLine_effects_in_one_shard :
    let place : Bytes → Fin Store.shardCount := fun _ => ⟨7, by decide⟩
    let commands : List (Command Bytes) := [.put [107] [118], .put [108] [119]]
    let before := ((Store.empty place).applyAll commands).2
    let removed := executeLine before (Utf8.ofString " delete k\r")
    let refused := executeLine before (Utf8.ofString "PUT k __TOMBSTONE__")
    (removed.reply.isError = false ∧ Done before (.delete [107]) removed.store ∧
        removed.store.counters = ⟨1, 0, 2, 1, 0⟩) ∧
      (refused.reply.isError = true ∧ Failed before (.put [107] Store.reserved) refused.store ∧
        refused.store.counters = ⟨2, 0, 2, 0, 1⟩) := by
  intro place commands before removed refused
  have hremoved : removed.reply.isError = false := by decide +kernel
  have hrefused : refused.reply.isError = true := by decide +kernel
  have hdelete : (ofLine (Utf8.ofString " delete k\r")).map (Command.map Text.Word.bytes) =
      .ok (.delete [107]) := by decide +kernel
  have hput : (ofLine (Utf8.ofString "PUT k __TOMBSTONE__")).map (Command.map Text.Word.bytes) =
      .ok (.put [107] Store.reserved) := by decide +kernel
  have hdone := (executeLine_effects place commands (Utf8.ofString " delete k\r")).2 hremoved
  have hfailed :=
    ((executeLine_effects place commands (Utf8.ofString "PUT k __TOMBSTONE__")).1 hrefused).2.2
  rw [hput] at hfailed
  obtain ⟨command, hcommand, hdone⟩ := hdone
  obtain rfl := Except.ok.inj (hdelete.symm.trans hcommand)
  exact ⟨⟨hremoved, hdone, by decide +kernel⟩, hrefused, hfailed, by decide +kernel⟩

end Command

end LineStore
