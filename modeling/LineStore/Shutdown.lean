/-!
# The shutdown signal

The server holds one signal, a value that it may set as long as it keeps the
sender.  Each connection has a listener.  A listener latches: once it has seen
the value `true` it counts as signalled for good, whatever the value does
later.  A listener that is not attached to the signal never sees anything.

* `Listener.poll` looks at the signal once.
* `Shutdown.step` is the whole life of a signal and its listeners, one action
  at a time, and `Shutdown.run` is a sequence of actions.
-/

namespace LineStore

/-- The server's request to shut down. -/
structure Signal where
  /-- The value last set. -/
  value : Bool
  /-- Whether the value can still be set. -/
  hasSender : Bool
  deriving DecidableEq, Repr

namespace Signal

def new (value : Bool) : Signal := ⟨value, true⟩

/-- Sets the value, if there still is a sender.  The answer is the value
before. -/
def send (signal : Signal) (value : Bool) : Option Bool × Signal :=
  if signal.hasSender then (some signal.value, { signal with value }) else (none, signal)

/-- Gives the sender up.  The answer says whether there still was one. -/
def dropSender (signal : Signal) : Bool × Signal :=
  (signal.hasSender, { signal with hasSender := false })

end Signal

/-- One party that waits for the signal. -/
structure Listener where
  /-- Whether the listener follows the signal at all. -/
  attached : Bool
  /-- Whether the listener has seen the value `true`. -/
  signalled : Bool
  deriving DecidableEq, Repr

namespace Listener

def new : Listener := ⟨true, false⟩

def never : Listener := ⟨false, false⟩

/-- Tells whether the listener would see the value `true` now. -/
def hears (listener : Listener) (signal : Signal) : Bool :=
  listener.attached && signal.value

/-- Looks at the signal once.  The answer says whether the listener is
signalled, now or before. -/
def poll (listener : Listener) (signal : Signal) : Bool × Listener :=
  let signalled := listener.signalled || listener.hears signal
  (signalled, { listener with signalled })

end Listener

/-- A signal and its listeners, numbered from zero. -/
structure Shutdown where
  signal : Signal
  listeners : List Listener
  deriving DecidableEq, Repr

namespace Shutdown

/-- One thing done to a signal or to a listener. -/
inductive Action
  | send (value : Bool)
  | dropSender
  | clone (listener : Nat)
  | listen
  | poll (listener : Nat)
  deriving DecidableEq, Repr

/-- The answer to an action. -/
inductive Answer
  /-- The value before a `send`, if there was a sender. -/
  | previous (value? : Option Bool)
  | hadSender (answer : Bool)
  | added (listener : Nat)
  | ready (answer : Bool)
  | unknownListener
  deriving DecidableEq, Repr

def start (value : Bool) (first : Listener) : Shutdown :=
  ⟨.new value, [first]⟩

def add (state : Shutdown) (listener : Listener) : Answer × Shutdown :=
  (.added state.listeners.length,
    { state with listeners := state.listeners ++ [listener] })

def step (state : Shutdown) : Action → Answer × Shutdown
  | .send value =>
    let (before?, signal) := state.signal.send value
    (.previous before?, { state with signal })
  | .dropSender =>
    let (had, signal) := state.signal.dropSender
    (.hadSender had, { state with signal })
  | .clone index =>
    match state.listeners[index]? with
    | some listener => state.add listener
    | none => (.unknownListener, state)
  | .listen => state.add .new
  | .poll index =>
    match state.listeners[index]? with
    | some listener =>
      let (answer, listener) := listener.poll state.signal
      (.ready answer, { state with listeners := state.listeners.set index listener })
    | none => (.unknownListener, state)

/-- A sequence of actions, with the answer to each. -/
def run (state : Shutdown) : List Action → List Answer × Shutdown
  | [] => ([], state)
  | action :: rest =>
    let (answer, next) := state.step action
    let (answers, last) := run next rest
    (answer :: answers, last)

end Shutdown

end LineStore
