import LineStore.Shutdown.Channel
import Mathlib.Data.List.Induction

/-!
# A latch over a level

A listener latches on the value `true` of the signal, whatever else happens to
the signal and to other listeners.  This module says so for every sequence of
actions, and for listeners that learn of the signal through a channel with
versions.

* `Receiver.wait_eq`: a poll of a wait is over if the latest value is `true`,
  whatever the receiver has seen before.
* `Watch.plain` forgets versions.  `Watch.step_eq` and `Watch.run_eq` are the
  simulation of a channel and its watchers by a signal and its listeners.
* `Shutdown.Inherited` is what holds of a listener by its history: from the
  start, since a poll, or as the copy of a listener of which it held.
  `Shutdown.has_run_iff` finds such properties of listeners in the history.
* The main result puts both together.
-/

namespace LineStore

/-! ## Versions make no difference -/

namespace Receiver

/-- A wait takes the latest value and is over if this is `true`.  What the
receiver has seen makes no difference. -/
theorem wait_eq (channel : Channel) (receiver : Receiver) :
    receiver.wait channel = (channel.value, ⟨channel.version⟩) := by
  have hnews := news_take channel receiver
  rw [wait]
  show (if channel.value = true then (true, (⟨channel.version⟩ : Receiver)) else _) = _
  cases hvalue : channel.value with
  | true => rfl
  | false =>
    rw [if_neg Bool.false_ne_true]
    split
    · rename_i hunseen
      rw [hunseen] at hnews
      split at hnews <;> cases hnews
    · rfl
    · rfl

end Receiver

namespace Channel

/-- The signal that a channel hands on. -/
def signal (channel : Channel) : Signal := ⟨channel.value, channel.hasSender⟩

theorem send_eq (channel : Channel) (value : Bool) :
    ((channel.send value).1, (channel.send value).2.signal) = channel.signal.send value := by
  by_cases hsender : channel.hasSender
  · simp [send, Signal.send, signal, hsender]
  · simp [send, Signal.send, signal, hsender]

end Channel

/-- A watcher without its receiver. -/
def Watcher.listener (watcher : Watcher) : Listener := ⟨watcher.attached, watcher.signalled⟩

theorem Watcher.poll_eq (watcher : Watcher) (channel : Channel) :
    ((watcher.poll channel).1, (watcher.poll channel).2.listener) =
      watcher.listener.poll channel.signal := by
  have hvalue : (watcher.channel channel).value = (watcher.attached && channel.value) := by
    unfold Watcher.channel
    cases watcher.attached <;> rfl
  unfold Watcher.poll Listener.poll
  rw [Receiver.wait_eq, hvalue]
  show _ = (watcher.signalled || (watcher.attached && channel.value),
    (⟨watcher.attached, watcher.signalled || (watcher.attached && channel.value)⟩ : Listener))
  cases hsignalled : watcher.signalled with
  | true => simp [Watcher.listener, hsignalled]
  | false => simp [Watcher.listener]

namespace Watch

open Shutdown (Action Answer)

/-- The signal and the listeners of a channel and its watchers. -/
def plain (watch : Watch) : Shutdown :=
  ⟨watch.channel.signal, watch.watchers.map Watcher.listener⟩

theorem add_eq (watch : Watch) (watcher : Watcher) :
    ((watch.add watcher).1, (watch.add watcher).2.plain) =
      watch.plain.add watcher.listener := by
  simp [add, plain, Shutdown.add]

/-- Forgetting versions before an action or after it is the same, and the
answer does not tell. -/
theorem step_eq (watch : Watch) (action : Action) :
    ((watch.step action).1, (watch.step action).2.plain) = watch.plain.step action := by
  have hfind : ∀ id, watch.plain.listeners[id]? = watch.watchers[id]?.map Watcher.listener :=
    fun _ => List.getElem?_map
  cases action with
  | send value =>
    have hsend := watch.channel.send_eq value
    simp only [step, Shutdown.step, plain, ← hsend]
  | dropSender => rfl
  | clone id =>
    simp only [step, Shutdown.step, hfind]
    cases watch.watchers[id]? with
    | none => rfl
    | some watcher => exact add_eq watch watcher
  | listen => exact add_eq watch .new
  | poll id =>
    simp only [step, Shutdown.step, hfind]
    cases watch.watchers[id]? with
    | none => rfl
    | some watcher =>
      have hpoll := watcher.poll_eq watch.channel
      simp only [Option.map_some, plain, List.map_set, ← hpoll]

theorem run_eq (watch : Watch) (actions : List Action) :
    ((watch.run actions).1, (watch.run actions).2.plain) = watch.plain.run actions := by
  induction actions generalizing watch with
  | nil => rfl
  | cons action rest ih =>
    have hrest := ih (watch.step action).2
    simp only [run, Shutdown.run, ← step_eq watch action, ← hrest]

end Watch

/-! ## Histories of listeners -/

namespace Shutdown

/-- An action that was done, and the answer to it. -/
abbrev Event := Action × Answer

/-- The actions of a sequence, each with its answer. -/
def history (state : Shutdown) (actions : List Action) : List Event :=
  actions.zip (state.run actions).1

/-- What holds of a listener by its history.  It may hold from the start.  It
comes to hold with a poll that has one of the answers `gains`, and a copy of a
listener takes it over.  Nothing takes it back. -/
inductive Inherited (atStart : Nat → Prop) (gains : Bool → Bool) : List Event → Nat → Prop
  | start {id : Nat} (h : atStart id) : Inherited atStart gains [] id
  | polled {history : List Event} {id : Nat} {answer : Bool} (h : gains answer = true) :
    Inherited atStart gains (history ++ [(.poll id, .ready answer)]) id
  | cloned {history : List Event} {original copy : Nat}
      (h : Inherited atStart gains history original) :
    Inherited atStart gains (history ++ [(.clone original, .added copy)]) copy
  | kept {history : List Event} {id : Nat} (event : Event)
      (h : Inherited atStart gains history id) :
    Inherited atStart gains (history ++ [event]) id

/-- A poll of the listener was ready, or one of a listener from which it was
cloned later on. -/
def HasNoticed (history : List Event) (id : Nat) : Prop :=
  Inherited (fun _ => False) (fun answer => answer) history id

/-- The listener is a first one that does not follow the signal, or a clone of
it or of such a clone. -/
def FromNever (isNever : Bool) (history : List Event) (id : Nat) : Prop :=
  Inherited (fun first => isNever = true ∧ first = 0) (fun _ => false) history id

/-- The values that were sent as long as there was a sender. -/
def sentValues (actions : List Action) : List Bool :=
  (actions.takeWhile (· ≠ .dropSender)).filterMap fun action =>
    match action with
    | .send value => some value
    | _ => none

variable {state : Shutdown} {atStart : Nat → Prop} {gains : Bool → Bool}

theorem inherited_nil_iff {id : Nat} : Inherited atStart gains [] id ↔ atStart id := by
  constructor
  · intro h
    generalize hhistory : ([] : List Event) = history at h
    cases h with
    | start h => exact h
    | polled | cloned | kept => simp at hhistory
  · exact .start

theorem inherited_concat_iff {history : List Event} {event : Event} {id : Nat} :
    Inherited atStart gains (history ++ [event]) id ↔
      (∃ answer, event = (.poll id, .ready answer) ∧ gains answer = true) ∨
        (∃ original, event = (.clone original, .added id) ∧
          Inherited atStart gains history original) ∨
        Inherited atStart gains history id := by
  constructor
  · intro h
    generalize hhistory : history ++ [event] = longer at h
    cases h with
    | start h => simp at hhistory
    | @polled _ _ answer h =>
      rcases List.append_inj' hhistory rfl with ⟨rfl, hevent⟩
      exact .inl ⟨answer, List.singleton_inj.mp hevent, h⟩
    | @cloned _ original _ h =>
      rcases List.append_inj' hhistory rfl with ⟨rfl, hevent⟩
      exact .inr (.inl ⟨original, List.singleton_inj.mp hevent, h⟩)
    | kept other h =>
      rcases List.append_inj' hhistory rfl with ⟨rfl, -⟩
      exact .inr (.inr h)
  · intro h
    rcases h with ⟨answer, rfl, h⟩ | ⟨original, rfl, h⟩ | h
    · exact .polled h
    · exact .cloned h
    · exact .kept event h

/-- What holds of no listener at the start, and does not come with a poll, never
holds. -/
theorem not_inherited {history : List Event} {id : Nat} (hstart : ∀ id, ¬ atStart id)
    (hgains : ∀ answer, gains answer = false) : ¬ Inherited atStart gains history id := by
  intro h
  induction h with
  | start h => exact hstart _ h
  | @polled _ _ answer h =>
    rw [hgains answer] at h
    exact Bool.noConfusion h
  | cloned _ ih => exact ih
  | kept _ _ ih => exact ih

/-! ## Properties of listeners -/

/-- There is a listener with this number, and it has a property. -/
def Has (state : Shutdown) (holds : Listener → Bool) (id : Nat) : Prop :=
  ∃ listener, state.listeners[id]? = some listener ∧ holds listener = true

variable {holds : Listener → Bool}

theorem has_iff {id : Nat} {listener : Listener} (h : state.listeners[id]? = some listener) :
    state.Has holds id ↔ holds listener = true := by
  simp [Has, h]

/-- A listener that is added becomes the last one. -/
theorem has_add_iff (state : Shutdown) (listener : Listener) (id : Nat) :
    (state.add listener).2.Has holds id ↔
      (id = state.listeners.length ∧ holds listener = true) ∨ state.Has holds id := by
  by_cases hid : id = state.listeners.length
  · have hlast : (state.add listener).2.listeners[id]? = some listener := by
      rw [hid]
      exact List.getElem?_concat_length
    rw [has_iff hlast]
    simp [Has, hid]
  · have hsame : (state.add listener).2.listeners[id]? = state.listeners[id]? := by
      show (state.listeners ++ [listener])[id]? = _
      grind
    simp [Has, hsame, hid]

/-- What one action does to a property that a new listener does not have, and
that a poll gives as its answer says.  It comes with a poll or with a clone, or
it was there before. -/
theorem has_step_iff (hnew : holds .new = false)
    (hpoll : ∀ (listener : Listener) (signal : Signal),
      holds (listener.poll signal).2 = true ↔
        gains (listener.poll signal).1 = true ∨ holds listener = true)
    (state : Shutdown) (action : Action) (id : Nat) :
    (state.step action).2.Has holds id ↔
      (∃ answer, (action, (state.step action).1) = (.poll id, .ready answer) ∧
        gains answer = true) ∨
        (∃ original, (action, (state.step action).1) = (.clone original, .added id) ∧
          state.Has holds original) ∨
        state.Has holds id := by
  cases action with
  | send value => simp [step, Has]
  | dropSender => simp [step, Has]
  | clone original =>
    cases hfind : state.listeners[original]? with
    | none => simp [step, hfind]
    | some listener =>
      have hstep : state.step (.clone original) = state.add listener := by simp [step, hfind]
      rw [hstep, has_add_iff, ← has_iff hfind]
      simp [add, @eq_comm _ id]
  | listen =>
    have hstep : state.step .listen = state.add .new := rfl
    rw [hstep, has_add_iff, hnew]
    simp
  | poll polled =>
    cases hfind : state.listeners[polled]? with
    | none => simp [step, hfind]
    | some listener =>
      have hstep : state.step (.poll polled) = (.ready (listener.poll state.signal).1,
          { state with
            listeners := state.listeners.set polled (listener.poll state.signal).2 }) := by
        simp [step, hfind]
      rw [hstep]
      by_cases hid : id = polled
      · subst hid
        have hset : (state.listeners.set id (listener.poll state.signal).2)[id]? =
            some (listener.poll state.signal).2 := by
          rw [List.getElem?_set_self (List.getElem?_eq_some_iff.mp hfind).1]
        rw [has_iff hset, hpoll, has_iff hfind]
        simp
      · have hset : (state.listeners.set polled (listener.poll state.signal).2)[id]? =
            state.listeners[id]? := List.getElem?_set_ne (Ne.symm hid)
        simp [Has, hset, Ne.symm hid]

/-! ## Sequences of actions -/

theorem length_run (state : Shutdown) (actions : List Action) :
    (state.run actions).1.length = actions.length := by
  induction actions generalizing state with
  | nil => rfl
  | cons action rest ih => exact congrArg (· + 1) (ih _)

theorem run_append (state : Shutdown) (actions more : List Action) :
    state.run (actions ++ more) =
      ((state.run actions).1 ++ ((state.run actions).2.run more).1,
        ((state.run actions).2.run more).2) := by
  induction actions generalizing state with
  | nil => rfl
  | cons action rest ih => simp only [List.cons_append, run, ih]

theorem run_concat (state : Shutdown) (actions : List Action) (action : Action) :
    (state.run (actions ++ [action])).2 = ((state.run actions).2.step action).2 := by
  rw [run_append]
  rfl

theorem history_concat (state : Shutdown) (actions : List Action) (action : Action) :
    state.history (actions ++ [action]) =
      state.history actions ++ [(action, ((state.run actions).2.step action).1)] := by
  unfold history
  rw [run_append, List.zip_append (length_run state actions).symm]
  rfl

/-- The listeners that have a property after a sequence of actions can be told
from its history. -/
theorem has_run_iff (hnew : holds .new = false)
    (hpoll : ∀ (listener : Listener) (signal : Signal),
      holds (listener.poll signal).2 = true ↔
        gains (listener.poll signal).1 = true ∨ holds listener = true)
    (hstart : ∀ id, state.Has holds id ↔ atStart id) (actions : List Action) (id : Nat) :
    (state.run actions).2.Has holds id ↔
      Inherited atStart gains (state.history actions) id := by
  induction actions using List.reverseRecOn generalizing id with
  | nil => exact (hstart id).trans inherited_nil_iff.symm
  | append_singleton actions action ih =>
    rw [run_concat, history_concat, inherited_concat_iff, has_step_iff hnew hpoll]
    simp only [ih]

/-- Nothing that is done to listeners changes the signal. -/
theorem signal_step (state : Shutdown) (action : Action) :
    (state.step action).2.signal =
      match action with
      | .send value => (state.signal.send value).2
      | .dropSender => state.signal.dropSender.2
      | _ => state.signal := by
  cases action with
  | send value => rfl
  | dropSender => rfl
  | clone original =>
    simp only [step]
    cases state.listeners[original]? <;> rfl
  | listen => rfl
  | poll polled =>
    simp only [step]
    cases state.listeners[polled]? <;> rfl

/-- The value is the last one that was sent while there was a sender. -/
theorem value_run (state : Shutdown) (actions : List Action) :
    (state.run actions).2.signal.value =
      if state.signal.hasSender then (sentValues actions).getLast?.getD state.signal.value
      else state.signal.value := by
  induction actions generalizing state with
  | nil => simp [run, sentValues]
  | cons action rest ih =>
    show ((state.step action).2.run rest).2.signal.value = _
    rw [ih, signal_step]
    cases action with
    | send value =>
      by_cases hsender : state.signal.hasSender
      · simp [Signal.send, hsender, sentValues, List.getLast?_cons]
      · simp [Signal.send, hsender]
    | dropSender => simp [Signal.dropSender, sentValues]
    | clone original => simp [sentValues]
    | listen => simp [sentValues]
    | poll polled => simp [sentValues]

/-! ## The main result -/

section Start

variable (value isNever : Bool) (actions : List Action)

/-- A signal with one listener, which may be one that does not follow it. -/
def startWith : Shutdown :=
  start value (if isNever then .never else .new)

theorem has_startWith_iff (id : Nat) :
    (startWith value isNever).Has holds id ↔
      id = 0 ∧ holds (if isNever then .never else .new) = true := by
  cases id with
  | zero => simp [Has, startWith, start]
  | succ id => simp [Has, startWith, start]

/-- A poll that is ready signals its listener, and one that is not leaves it as
it was. -/
theorem signalled_poll (listener : Listener) (signal : Signal) :
    (listener.poll signal).2.signalled = true ↔
      (listener.poll signal).1 = true ∨ listener.signalled = true := by
  simp only [Listener.poll, Bool.or_eq_true]
  tauto

/-- Nothing takes it back that a listener is signalled. -/
theorem signalled_run {id : Nat} (h : state.Has Listener.signalled id) (more : List Action) :
    (state.run more).2.Has Listener.signalled id := by
  induction more generalizing state with
  | nil => exact h
  | cons action rest ih =>
    have hstep := @has_step_iff (fun answer => answer) _ rfl signalled_poll state action id
    exact ih (hstep.mpr (.inr (.inr h)))

/-- The listeners that have noticed the signal are the signalled ones. -/
theorem signalled_iff (id : Nat) :
    ((startWith value isNever).run actions).2.Has Listener.signalled id ↔
      HasNoticed ((startWith value isNever).history actions) id := by
  refine has_run_iff rfl signalled_poll ?_ actions id
  intro id
  rw [has_startWith_iff]
  cases isNever <;> simp [Listener.never, Listener.new]

/-- The listeners that come from one which does not follow the signal are those
that do not follow it. -/
theorem detached_iff (id : Nat) :
    ((startWith value isNever).run actions).2.Has (fun listener => !listener.attached) id ↔
      FromNever isNever ((startWith value isNever).history actions) id := by
  refine has_run_iff rfl ?_ ?_ actions id
  · intro listener signal
    simp [Listener.poll]
  · intro id
    rw [has_startWith_iff]
    cases isNever <;> simp [Listener.never, Listener.new]

/-- A listener that does not follow the signal is never signalled. -/
theorem unsignalled_of_detached {id : Nat} {listener : Listener}
    (h : ((startWith value isNever).run actions).2.listeners[id]? = some listener)
    (hdetached : listener.attached = false) : listener.signalled = false := by
  let holds (listener : Listener) : Bool := !listener.attached && listener.signalled
  let gains (_ : Bool) : Bool := false
  have hpoll : ∀ (listener : Listener) (signal : Signal),
      holds (listener.poll signal).2 = true ↔
        gains (listener.poll signal).1 = true ∨ holds listener = true := by
    intro listener signal
    cases hattached : listener.attached <;>
      simp [holds, gains, Listener.poll, Listener.hears, hattached]
  have hstart : ∀ id, (startWith value isNever).Has holds id ↔ False := by
    intro id
    rw [has_startWith_iff]
    cases isNever <;> simp [holds, Listener.never, Listener.new]
  have hnone : ¬ ((startWith value isNever).run actions).2.Has holds id := by
    rw [has_run_iff rfl hpoll hstart]
    exact not_inherited (fun _ hfalse => hfalse) fun _ => rfl
  rw [has_iff h] at hnone
  simpa [holds, hdetached] using hnone

end Start

/-- A listener latches on the value `true`, for any sequence of actions.

* Listeners that learn of the signal through a channel with versions give the
  same answers, and are signalled at the same time.
* The value of the signal is the last one that was sent while there was a
  sender.
* A listener is signalled if a poll of it was ready, or one of a listener from
  which it was cloned later on.  Once it is signalled it stays so.
* A poll is ready if the listener has noticed the signal before, or if it
  follows the signal and the value is `true` now.  It changes neither the signal
  nor another listener.
* A listener that does not follow the signal is never ready, and neither are its
  clones. -/
theorem latches_on_level (value isNever : Bool) (actions : List Action) :
    let watch := (Watch.start value (if isNever then .never else .new)).run actions
    let state := ((startWith value isNever).run actions).2
    let history := (startWith value isNever).history actions
    (watch.1, watch.2.plain) = (startWith value isNever).run actions ∧
      state.signal.value = (sentValues actions).getLast?.getD value ∧
      ∀ (id : Nat) (listener : Listener), state.listeners[id]? = some listener →
        let polled := (state.step (.poll id)).2
        (listener.signalled = true ↔ HasNoticed history id) ∧
          (∀ more, listener.signalled = true → (state.run more).2.Has Listener.signalled id) ∧
          (∃ ready : Bool,
            (state.step (.poll id)).1 = .ready ready ∧
              (watch.2.step (.poll id)).1 = .ready ready ∧
              (ready = true ↔
                HasNoticed history id ∨
                  ¬ FromNever isNever history id ∧ state.signal.value = true)) ∧
          (polled.signal = state.signal ∧
            ∀ other, other ≠ id → polled.listeners[other]? = state.listeners[other]?) ∧
          (FromNever isNever history id →
            listener.signalled = false ∧ (state.step (.poll id)).1 = .ready false) := by
  intro watch state history
  have hplain : (Watch.start value (if isNever then .never else .new)).plain =
      startWith value isNever := by
    cases isNever <;> rfl
  have hrun : (watch.1, watch.2.plain) = (startWith value isNever).run actions := by
    rw [Watch.run_eq, hplain]
  refine ⟨hrun, value_run _ actions, ?_⟩
  intro id listener hfind polled
  have hsignalled := signalled_iff value isNever actions id
  rw [has_iff hfind] at hsignalled
  have hdetached := detached_iff value isNever actions id
  rw [has_iff hfind, Bool.not_eq_true'] at hdetached
  have hstep : state.step (.poll id) = (.ready (listener.poll state.signal).1,
      { state with listeners := state.listeners.set id (listener.poll state.signal).2 }) := by
    simp [step, hfind]
  have hwatch : (watch.2.step (.poll id)).1 = (state.step (.poll id)).1 := by
    have hsame := congrArg Prod.fst (watch.2.step_eq (.poll id))
    rw [show watch.2.plain = state from congrArg Prod.snd hrun] at hsame
    exact hsame
  refine ⟨hsignalled, ?_, ?_, ⟨?_, ?_⟩, ?_⟩
  · intro more hnoticed
    exact signalled_run ⟨listener, hfind, hnoticed⟩ more
  · refine ⟨(listener.poll state.signal).1, by rw [hstep], by rw [hwatch, hstep], ?_⟩
    rw [← hsignalled, ← hdetached]
    simp [Listener.poll, Listener.hears]
  · show (state.step (.poll id)).2.signal = state.signal
    rw [hstep]
  · intro other hother
    show (state.step (.poll id)).2.listeners[other]? = state.listeners[other]?
    rw [hstep]
    exact List.getElem?_set_ne (Ne.symm hother)
  · intro hnever
    have hunattached := hdetached.mpr hnever
    have hunsignalled := unsignalled_of_detached value isNever actions hfind hunattached
    refine ⟨hunsignalled, ?_⟩
    rw [hstep]
    simp [Listener.poll, Listener.hears, hunattached, hunsignalled]

/-- A listener that was cloned before a ready poll, and one that was cloned after
it, once the value is `false` again and the sender is gone. -/
theorem latches_on_level_copies :
    let actions : List Action :=
      [.poll 0, .send true, .clone 0, .poll 0, .send false, .dropSender, .clone 0]
    let state := ((startWith false false).run actions).2
    let history := (startWith false false).history actions
    let detached := ((startWith true true).run [.clone 0, .listen]).2
    (state.listeners[1]? = some ⟨true, false⟩ ∧ ¬ HasNoticed history 1 ∧
        (state.step (.poll 1)).1 = .ready false) ∧
      (state.listeners[2]? = some ⟨true, true⟩ ∧ HasNoticed history 2 ∧
        (state.step (.poll 2)).1 = .ready true ∧
        (state.run [.send false, .poll 0]).2.Has Listener.signalled 2) ∧
      detached.listeners[1]? = some .never ∧ detached.signal.value = true ∧
      FromNever true ((startWith true true).history [.clone 0, .listen]) 1 ∧
      (detached.step (.poll 1)).1 = .ready false := by
  intro actions state history detached
  have hvalue : state.signal.value = false := by decide
  have hearly : state.listeners[1]? = some ⟨true, false⟩ := by decide
  have hlate : state.listeners[2]? = some ⟨true, true⟩ := by decide
  have hnever : detached.listeners[1]? = some .never := by decide
  have hfrom : FromNever true ((startWith true true).history [.clone 0, .listen]) 1 :=
    .kept _ (.cloned (.start ⟨rfl, rfl⟩))
  rcases latches_on_level false false actions with ⟨-, -, hlisteners⟩
  rcases latches_on_level true true [.clone 0, .listen] with ⟨-, hlevel, hdetached⟩
  rcases hlisteners 1 _ hearly with ⟨hearlyNoticed, -, ⟨early, hearlyPoll, -, hearlyReady⟩, -⟩
  rcases hlisteners 2 _ hlate with ⟨hlateNoticed, hlatched, ⟨late, hlatePoll, -, hlateReady⟩, -⟩
  have hunnoticed : ¬ HasNoticed history 1 := mt hearlyNoticed.mpr Bool.false_ne_true
  have hnoticed : HasNoticed history 2 := hlateNoticed.mp rfl
  have hpending : early = false := by
    rw [← Bool.not_eq_true, hearlyReady, hvalue]
    simpa using hunnoticed
  have hready : late = true := hlateReady.mpr (.inl hnoticed)
  refine ⟨⟨hearly, hunnoticed, ?_⟩, ⟨hlate, hnoticed, ?_, hlatched _ rfl⟩, hnever, hlevel, hfrom,
    ?_⟩
  · rw [hearlyPoll, hpending]
  · rw [hlatePoll, hready]
  · exact ((hdetached 1 _ hnever).2.2.2.2 hfrom).2

end Shutdown

end LineStore
