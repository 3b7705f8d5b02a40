import LineStore.Proofs.FlatMap
import LineStore.Proofs.Settling

/-!
# Lines about different keys

A request line is about one key, or about none if it is no request.  The reply
to it depends on what this key reads, and it changes what this key reads, and
nothing else.  So a connection cannot tell two stores apart that agree on the
keys of its lines.

* `Command.keyOf?` is the key of a line.  `FlatMap.answerLine_congr` and
  `FlatMap.answerLine_of_keyOf?_ne` say what it means for the map.
* `Store.AgreeOn` relates two stores, and `AgreeOn` two shared states, that
  read the same for some keys.
* `AgreeOn.step` and `AgreeOn.settle`: a connection whose lines are about these
  keys does the same in both shared states, and they go on agreeing.
* `AgreeOn.step_other` and `AgreeOn.settle_other`: a connection whose lines are
  about other keys may go on in one of them alone.
-/

namespace LineStore

/-! ## The key of a request line -/

theorem Command.key_map {α β : Type} (f : α → β) (command : Command α) :
    (command.map f).key = f command.key := by
  cases command <;> rfl

/-- The key that a line is a request for, if it is a request. -/
def Command.keyOf? (line : Bytes) : Option Bytes :=
  match ofLine line with
  | .ok command => some command.key.bytes
  | .error _ => none

namespace FlatMap

variable {map map' : FlatMap} {line key : Bytes}

theorem answer_congr {command : Command Bytes} (h : map command.key = map' command.key) :
    (map.answer command).1 = (map'.answer command).1 ∧
      ∀ other, map other = map' other →
        (map.answer command).2 other = (map'.answer command).2 other := by
  rcases respond_congr h with ⟨hanswer, hagree⟩
  rw [answer_eq_respond, answer_eq_respond]
  exact ⟨congrArg Store.Answer.reply hanswer, hagree⟩

theorem answer_of_ne {command : Command Bytes} (h : key ≠ command.key) :
    (map.answer command).2 key = map key := by
  rw [answer_eq_respond]
  exact respond_of_ne h

theorem keyOf?_of_ofLine {command : Command Text.Word} (h : Command.ofLine line = .ok command) :
    Command.keyOf? line = some (command.map Text.Word.bytes).key := by
  unfold Command.keyOf?
  rw [h, Command.key_map]

/-- Maps that agree on the key of a line make the same reply to it, and go on
agreeing wherever they agreed. -/
theorem answerLine_congr (h : ∀ key, Command.keyOf? line = some key → map key = map' key) :
    (map.answerLine line).1 = (map'.answerLine line).1 ∧
      ∀ other, map other = map' other →
        (map.answerLine line).2 other = (map'.answerLine line).2 other := by
  unfold answerLine
  cases hline : Command.ofLine line with
  | error error => exact ⟨rfl, fun _ ho => ho⟩
  | ok command => exact answer_congr (h _ (keyOf?_of_ofLine hline))

/-- A line leaves all keys but its own as they are. -/
theorem answerLine_of_keyOf?_ne (h : Command.keyOf? line ≠ some key) :
    (map.answerLine line).2 key = map key := by
  unfold answerLine
  cases hline : Command.ofLine line with
  | error error => rfl
  | ok command =>
    refine answer_of_ne ?_
    rintro rfl
    exact h (keyOf?_of_ofLine hline)

end FlatMap

/-! ## Stores that agree -/

/-- Two stores that read the same for the given keys. -/
structure Store.AgreeOn (keys : Bytes → Prop) (store store' : Store) : Prop where
  distinct : store.KeysDistinct
  distinct' : store'.KeysDistinct
  reads : ∀ key, keys key → store.get? key = store'.get? key

namespace Command

variable {keys : Bytes → Prop} {store store' : Store} {line : Bytes} {lines : List Bytes}

/-- What is logged of a line tells no more of the store than the reply does. -/
theorem record_executeLine_congr
    (h : (executeLine store line).reply = (executeLine store' line).reply) :
    (executeLine store line).record = (executeLine store' line).record := by
  unfold executeLine at h ⊢
  cases hread : (ofLine line).map (Command.map Text.Word.bytes) with
  | error error => rfl
  | ok command =>
    rw [hread] at h
    exact congrArg (Execution.Record.executed command) h

/-- A line about the given keys is answered the same by stores that agree on
them, and they go on agreeing. -/
theorem executeLine_agree (h : Store.AgreeOn keys store store')
    (hkeys : ∀ key, keyOf? line = some key → keys key) :
    (executeLine store line).reply = (executeLine store' line).reply ∧
      Store.AgreeOn keys (executeLine store line).store (executeLine store' line).store := by
  obtain ⟨hline, hdistinct⟩ := executeLine_eq_answerLine h.distinct line
  obtain ⟨hline', hdistinct'⟩ := executeLine_eq_answerLine h.distinct' line
  obtain ⟨hreply, hreads⟩ := FlatMap.answerLine_congr fun key hkey => h.reads key (hkeys key hkey)
  rw [← hline, ← hline'] at hreply hreads
  exact ⟨hreply, hdistinct, hdistinct', fun key hkey => hreads key (h.reads key hkey)⟩

/-- A line about other keys changes nothing that matters. -/
theorem executeLine_agree_other (h : Store.AgreeOn keys store store')
    (hkeys : ∀ key, keyOf? line = some key → ¬ keys key) :
    Store.AgreeOn keys (executeLine store line).store store' := by
  obtain ⟨hline, hdistinct⟩ := executeLine_eq_answerLine h.distinct line
  refine ⟨hdistinct, h.distinct', ?_⟩
  intro key hkey
  have hframe : (FlatMap.answerLine store.get? line).2 key = store.get? key :=
    FlatMap.answerLine_of_keyOf?_ne fun habout => hkeys key habout hkey
  rw [← hline] at hframe
  exact hframe.trans (h.reads key hkey)

/-- Lines that are about no key but the given ones. -/
def AllAbout (keys : Bytes → Prop) (lines : List Bytes) : Prop :=
  ∀ line ∈ lines, ∀ key, keyOf? line = some key → keys key

theorem executeLines_agree (h : Store.AgreeOn keys store store') (hkeys : AllAbout keys lines) :
    (executeLines store lines).1 = (executeLines store' lines).1 ∧
      Store.AgreeOn keys (executeLines store lines).2 (executeLines store' lines).2 := by
  induction lines generalizing store store' with
  | nil => exact ⟨rfl, h⟩
  | cons line lines ih =>
    obtain ⟨hline, hlines⟩ := List.forall_mem_cons.mp hkeys
    obtain ⟨hreply, hagree⟩ := executeLine_agree h hline
    obtain ⟨hreplies, hlast⟩ := ih hagree hlines
    exact ⟨congrArg₂ List.cons hreply hreplies, hlast⟩

theorem executeLines_agree_other (h : Store.AgreeOn keys store store')
    (hkeys : AllAbout (fun key => ¬ keys key) lines) :
    Store.AgreeOn keys (executeLines store lines).2 store' := by
  induction lines generalizing store with
  | nil => exact h
  | cons line lines ih =>
    obtain ⟨hline, hlines⟩ := List.forall_mem_cons.mp hkeys
    exact ih (executeLine_agree_other h hline) hlines

end Command

/-! ## Steps in shared states that agree -/

/-- Two shared states that a connection cannot tell apart as long as its lines
are about the given keys. -/
structure AgreeOn (keys : Bytes → Prop) (shared shared' : Shared) : Prop where
  signal : shared'.signal = shared.signal
  stores : Store.AgreeOn keys shared.store shared'.store

namespace Connection

variable {connection : Connection} {shared shared' : Shared} {keys : Bytes → Prop}

/-- What a step does apart from the shared state: the connection after it, if
any, and the events.  A step that waits does nothing. -/
def Progress.own : Progress → Option (Option Connection × List Event)
  | waits => none
  | goes _ next events => some (some next, events)
  | ends _ events => some (none, events)

theorem Progress.events_of_own {progress progress' : Progress}
    (h : progress.own = progress'.own) : progress.events = progress'.events := by
  cases progress <;> cases progress' <;> simp_all [own]

theorem Progress.next?_of_own {progress progress' : Progress}
    (h : progress.own = progress'.own) :
    progress.next? connection = progress'.next? connection := by
  cases progress <;> cases progress' <;> simp_all [own]

theorem Progress.exists_goes {next : Connection} {events : List Event} {progress : Progress}
    (h : (goes shared next events).own = progress.own) :
    ∃ shared', progress = goes shared' next events := by
  cases progress <;> simp_all [own]

theorem Progress.exists_ends {events : List Event} {progress : Progress}
    (h : (ends shared events).own = progress.own) :
    ∃ shared', progress = ends shared' events := by
  cases progress <;> simp_all [own]

/-- Where the signal is the same, a connection takes the same line, or does the
same without looking at the store. -/
theorem step_of_signal (connection : Connection) (hs : shared'.signal = shared.signal) :
    (∃ size, connection.step shared = connection.answerLine shared size ∧
        connection.step shared' = connection.answerLine shared' size) ∨
      (connection.step shared).own = (connection.step shared').own := by
  unfold step
  split
  · exact .inr rfl
  · right
    unfold sendRest
    dsimp only
    split
    · split <;> rfl
    · rfl
    · split <;> rfl
  · split
    · split
      · exact .inr rfl
      · rename_i size _ _
        exact .inl ⟨size, rfl, rfl⟩
    · right
      unfold readMore
      rw [hs]
      split
      · rfl
      · split
        · rfl
        · split
          · rfl
          · unfold read
            dsimp only
            split
            · rfl
            · rfl
            · rfl
            · split <;> rfl

/-- A line is answered the same where the stores agree on its key. -/
theorem own_answerLine {size : Nat} (h : AgreeOn keys shared shared')
    (hkeys : ∀ key, Command.keyOf? (connection.buffer.take size) = some key → keys key) :
    (connection.answerLine shared size).own = (connection.answerLine shared' size).own := by
  have hreply := (Command.executeLine_agree h.stores hkeys).1
  have hrecord := Command.record_executeLine_congr hreply
  unfold answerLine
  dsimp only [Progress.own]
  rw [hreply, hrecord]

end Connection

namespace AgreeOn

open Connection

variable {connection : Connection} {shared shared' : Shared} {keys : Bytes → Prop}

/-- A connection whose lines are about the given keys does the same in shared
states that agree on them. -/
theorem step (h : AgreeOn keys shared shared')
    (hkeys : Command.AllAbout keys ((connection.step shared).events.filterMap Event.line?)) :
    (connection.step shared).own = (connection.step shared').own ∧
      AgreeOn keys ((connection.step shared).shared shared)
        ((connection.step shared').shared shared') := by
  have hown : (connection.step shared).own = (connection.step shared').own := by
    rcases step_of_signal connection h.signal with ⟨size, hstep, hstep'⟩ | hown
    · rw [hstep, hstep']
      refine own_answerLine h (hkeys _ ?_)
      simp [hstep, answerLine, List.filterMap_cons]
    · exact hown
  refine ⟨hown, ?_, ?_⟩
  · rw [signal_of_step, signal_of_step, h.signal]
  · have hagree := (Command.executeLines_agree h.stores hkeys).2
    rw [executeLines_of_step connection shared, Progress.events_of_own hown,
      executeLines_of_step connection shared'] at hagree
    exact hagree

/-- A connection whose lines are about other keys leaves alone what the states
agree on. -/
theorem step_other (h : AgreeOn keys shared shared')
    (hkeys : Command.AllAbout (fun key => ¬ keys key)
      ((connection.step shared).events.filterMap Event.line?)) :
    AgreeOn keys ((connection.step shared).shared shared) shared' := by
  refine ⟨?_, ?_⟩
  · rw [signal_of_step, h.signal]
  · have hagree := Command.executeLines_agree_other h.stores hkeys
    rwa [executeLines_of_step connection shared] at hagree

theorem settle (h : AgreeOn keys shared shared')
    (hkeys : Command.AllAbout keys ((connection.settle shared).events.filterMap Event.line?)) :
    (connection.settle shared).events = (connection.settle shared').events ∧
      (connection.settle shared).connection? = (connection.settle shared').connection? ∧
      AgreeOn keys (connection.settle shared).shared (connection.settle shared').shared := by
  induction connection, shared using settle_induction generalizing shared' with
  | waits connection shared hstep =>
    rw [settle_of_waits (step_waits_of_signal hstep h.signal)]
    exact ⟨rfl, rfl, h⟩
  | ends connection shared nextShared events hstep =>
    have hnow : Command.AllAbout keys
        ((connection.step shared).events.filterMap Event.line?) := by rwa [hstep]
    obtain ⟨hown, hagree⟩ := h.step hnow
    rw [hstep] at hown hagree
    obtain ⟨nextShared', hstep'⟩ := Progress.exists_ends hown
    rw [hstep'] at hagree
    rw [settle_of_ends hstep']
    exact ⟨rfl, rfl, hagree⟩
  | goes connection shared nextShared next events hstep ih =>
    rw [List.filterMap_append] at hkeys
    obtain ⟨hfirst, hlater⟩ := List.forall_mem_append.mp hkeys
    have hnow : Command.AllAbout keys
        ((connection.step shared).events.filterMap Event.line?) := by rwa [hstep]
    obtain ⟨hown, hagree⟩ := h.step hnow
    rw [hstep] at hown hagree
    obtain ⟨nextShared', hstep'⟩ := Progress.exists_goes hown
    rw [hstep'] at hagree
    obtain ⟨hevents, hnext, hlast⟩ := ih hagree hlater
    rw [settle_of_goes hstep', hevents, hnext]
    exact ⟨rfl, rfl, hlast⟩

theorem settle_other (h : AgreeOn keys shared shared')
    (hkeys : Command.AllAbout (fun key => ¬ keys key)
      ((connection.settle shared).events.filterMap Event.line?)) :
    AgreeOn keys (connection.settle shared).shared shared' := by
  induction connection, shared using settle_induction with
  | waits => exact h
  | ends connection shared nextShared events hstep =>
    have hnow : Command.AllAbout (fun key => ¬ keys key)
        ((connection.step shared).events.filterMap Event.line?) := by rwa [hstep]
    have hagree := h.step_other hnow
    rwa [hstep] at hagree
  | goes connection shared nextShared next events hstep ih =>
    rw [List.filterMap_append] at hkeys
    obtain ⟨hfirst, hlater⟩ := List.forall_mem_append.mp hkeys
    have hnow : Command.AllAbout (fun key => ¬ keys key)
        ((connection.step shared).events.filterMap Event.line?) := by rwa [hstep]
    have hagree := h.step_other hnow
    rw [hstep] at hagree
    exact ih hagree hlater

end AgreeOn

end LineStore
