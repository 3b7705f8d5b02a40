import LineStore.Proofs.Calls
import LineStore.Proofs.Exchange
import LineStore.Proofs.FlatMap

/-!
# The service as a dictionary

To its clients a server is one map from strings to strings.  Nothing between a
call and the store shows: not the request line, not its pieces on the way, not
the reply line, which does not say what kind of reply it is.

* `Dictionary.answer` is what a call returns, and `Dictionary.Mirrors` is what
  ties a dictionary to the store of a server.
* `Dictionary.Mirrors.agrees` is one request: the reply that the store makes
  means to the client what the dictionary answers, and the store goes on
  mirroring the dictionary.
-/

namespace LineStore

abbrev Dictionary := String → Option String

namespace Dictionary

open Client

/-- What a call returns, and the dictionary after it. -/
def answer (dictionary : Dictionary) (command : Command String) :
    Except ClientError Returned × Dictionary :=
  match refusal? command with
  | some error => (.error error, dictionary)
  | none =>
    match command with
    | .put key value =>
      if value = "__TOMBSTONE__" then (.error (.reservedKeyword "__TOMBSTONE__"), dictionary)
      else (.ok .done, Function.update dictionary key (some value))
    | .get key => (.ok (.value (dictionary key)), dictionary)
    | .delete key =>
      if (dictionary key).isSome then (.ok .done, Function.update dictionary key none)
      else (.error .notFound, dictionary)

/-- A store that holds the bindings of a dictionary, all of them words. -/
structure Mirrors (dictionary : Dictionary) (store : Store) : Prop where
  distinct : store.KeysDistinct
  reads : ∀ key : String, store.get? (Utf8.ofString key) = (dictionary key).map Utf8.ofString
  words : ∀ key value : String, dictionary key = some value → Text.IsWord value.toList

variable {dictionary : Dictionary} {store : Store}

theorem reads_update {get? : Bytes → Option Bytes}
    (h : ∀ key : String, get? (Utf8.ofString key) = (dictionary key).map Utf8.ofString)
    (key : String) (value? : Option String) (other : String) :
    Function.update get? (Utf8.ofString key) (value?.map Utf8.ofString) (Utf8.ofString other) =
      (Function.update dictionary key value? other).map Utf8.ofString := by
  by_cases ho : other = key
  · subst ho
    rw [Function.update_self, Function.update_self]
  · rw [Function.update_of_ne ho, Function.update_of_ne (Utf8.ofString_injective.ne ho), h]

/-- The server executes the command that its client wrote. -/
theorem executeLine_requestBytes {command : Command String} (h : command.Sendable)
    (store : Store) :
    Command.executeLine store command.requestBytes =
      Command.execute store (command.map Utf8.ofString) := by
  have hread := Command.ofLine_requestText h
  unfold Command.executeLine
  rw [Command.requestBytes, hread]
  cases command <;> rfl

/-! ## The replies -/

theorem says_ok : Says .ok Reply.okText :=
  ⟨rfl, by decide, by decide⟩

theorem says_notFound : Says .notFound Reply.notFoundText :=
  ⟨rfl, by decide, by decide⟩

theorem says_reserved :
    Says (.reservedKeyword Store.reserved) "RESERVED KEYWORD __TOMBSTONE__" :=
  ⟨by decide, by decide, by decide⟩

theorem says_value {value : String} (h : Text.IsWord value.toList) :
    Says (.value (Utf8.ofString value)) value where
  body := rfl
  oneLine hmem := Bool.noConfusion (h.2 _ hmem)
  noReturn hlast := Bool.noConfusion (h.2 _ (List.mem_of_getLast? hlast))

/-! ## One request -/

theorem Mirrors.of_same (h : Mirrors dictionary store) {next : Store}
    (hd : next.KeysDistinct) (hget : next.get? = store.get?) : Mirrors dictionary next where
  distinct := hd
  reads key := by rw [hget, h.reads]
  words := h.words

/-- A store that binds or unbinds a key does what its dictionary does. -/
theorem Mirrors.of_update (h : Mirrors dictionary store) {next : Store} (key : String)
    (value? : Option String) (hd : next.KeysDistinct)
    (hw : ∀ value, value? = some value → Text.IsWord value.toList)
    (hget : next.get? =
      Function.update store.get? (Utf8.ofString key) (value?.map Utf8.ofString)) :
    Mirrors (Function.update dictionary key value?) next where
  distinct := hd
  reads other := by rw [hget, reads_update h.reads]
  words other value hvalue := by
    by_cases ho : other = key
    · rw [ho, Function.update_self] at hvalue
      exact hw value hvalue
    · rw [Function.update_of_ne ho] at hvalue
      exact h.words other value hvalue

/-- The reply that a store makes to a command means to the client what the
dictionary answers, and the store goes on mirroring the dictionary. -/
def Agrees (dictionary : Dictionary) (store : Store) (command : Command String) : Prop :=
  ∃ text : String,
    Says (Command.execute store (command.map Utf8.ofString)).reply text ∧
      readReply text command = (dictionary.answer command).1 ∧
      Mirrors (dictionary.answer command).2
        (Command.execute store (command.map Utf8.ofString)).store

/-- To agree on a command that can be sent, it is enough that the flat map and
the dictionary answer alike. -/
theorem agrees_of_answer {command : Command String} (h : Mirrors dictionary store)
    {reply : Reply} {map : FlatMap} {text : String}
    {result : Except ClientError Returned} {next : Dictionary}
    (hmap : FlatMap.answer store.get? (command.map Utf8.ofString) = (reply, map))
    (hanswer : dictionary.answer command = (result, next)) (hsaid : Says reply text)
    (hread : readReply text command = result)
    (hnext : ∀ store' : Store, store'.KeysDistinct → store'.get? = map →
      Mirrors next store') :
    Agrees dictionary store command := by
  obtain ⟨hboth, hd⟩ := Command.execute_eq_answer h.distinct (command.map Utf8.ofString)
  obtain ⟨hreply, hget⟩ := Prod.mk.inj (hboth.trans hmap)
  unfold Agrees
  rw [hanswer, hreply]
  exact ⟨text, hsaid, hread, hnext _ hd hget⟩

theorem Mirrors.put (h : Mirrors dictionary store) {key value : String}
    (hs : (Command.put key value).Sendable) : Agrees dictionary store (.put key value) := by
  have hfit : refusal? (.put key value) = none := refusal?_eq_none_iff.mpr hs
  have hword : Text.IsWord value.toList := hs _ (List.mem_cons_of_mem _ List.mem_cons_self)
  by_cases hv : value = "__TOMBSTONE__"
  · refine agrees_of_answer h ?_ ?_ says_reserved (readReply_put_reserved key value)
      fun _ hd hget => h.of_same hd hget
    · exact congrArg (fun bytes => FlatMap.answer store.get? (.put (Utf8.ofString key) bytes))
        (congrArg Utf8.ofString hv)
    · rw [answer, hfit]
      exact if_pos hv
  · refine agrees_of_answer h ?_ ?_ says_ok (readReply_put_ok key value) fun _ hd hget =>
      h.of_update key (some value) hd (fun _ hsome => Option.some.inj hsome ▸ hword) hget
    · exact if_neg (Utf8.ofString_injective.ne hv)
    · rw [answer, hfit]
      exact if_neg hv

theorem Mirrors.get (h : Mirrors dictionary store) {key : String}
    (hs : (Command.get key).Sendable) : Agrees dictionary store (.get key) := by
  have hfit : refusal? (.get key) = none := refusal?_eq_none_iff.mpr hs
  have hanswer : dictionary.answer (.get key) = (.ok (.value (dictionary key)), dictionary) := by
    rw [answer, hfit]
  cases hkey : dictionary key with
  | none =>
    rw [hkey] at hanswer
    refine agrees_of_answer h ?_ hanswer says_notFound (readReply_get_notFound key)
      fun _ hd hget => h.of_same hd hget
    simp [Command.map, FlatMap.answer, h.reads, hkey]
  | some value =>
    have hword : Text.IsWord value.toList := h.words key value hkey
    rw [hkey] at hanswer
    refine agrees_of_answer h ?_ hanswer (says_value hword) (readReply_get_value key hword)
      fun _ hd hget => h.of_same hd hget
    simp [Command.map, FlatMap.answer, h.reads, hkey]

theorem Mirrors.delete (h : Mirrors dictionary store) {key : String}
    (hs : (Command.delete key).Sendable) : Agrees dictionary store (.delete key) := by
  have hfit : refusal? (.delete key) = none := refusal?_eq_none_iff.mpr hs
  cases hkey : dictionary key with
  | none =>
    refine agrees_of_answer h ?_ ?_ says_notFound (readReply_delete_notFound key)
      fun _ hd hget => h.of_same hd hget
    · simp [Command.map, FlatMap.answer, h.reads, hkey]
    · simp [answer, hfit, hkey]
  | some value =>
    refine agrees_of_answer h ?_ ?_ says_ok (readReply_delete_ok key) fun _ hd hget =>
      h.of_update key none hd
        (fun value hnone => absurd hnone.symm (Option.some_ne_none value)) hget
    · simp [Command.map, FlatMap.answer, h.reads, hkey]
    · simp [answer, hfit, hkey]

/-- A store and its dictionary agree on every command that can be sent. -/
theorem Mirrors.agrees (h : Mirrors dictionary store) {command : Command String}
    (hs : command.Sendable) : Agrees dictionary store command := by
  cases command with
  | put key value => exact h.put hs
  | get key => exact h.get hs
  | delete key => exact h.delete hs

end Dictionary

end LineStore
