import LineStore.Shutdown

/-!
# Watching the signal through a channel

A listener learns of the signal through a channel.  The channel holds one value,
and a version that changes whenever the value is set.  A receiver remembers the
version that it has seen last, and can wait for one that it has not seen.

* `Receiver.wait` is one poll of a wait for the value `true`.  It is a loop: the
  receiver takes the latest value, and if this is not `true` it waits for a
  version that it has not seen.
* `Watch.step` does to a channel and its watchers what `Shutdown.step` does to a
  signal and its listeners, with the same answers.
-/

namespace LineStore

/-- A channel that hands its latest value to any number of receivers. -/
structure Channel where
  value : Bool
  /-- Changes whenever the value is set, and wraps. -/
  version : UInt64
  /-- Whether the value can still be set. -/
  hasSender : Bool
  deriving DecidableEq, Repr

namespace Channel

def new (value : Bool) : Channel := ⟨value, 0, true⟩

/-- Sets the value, if there still is a sender.  The answer is the value
before. -/
def send (channel : Channel) (value : Bool) : Option Bool × Channel :=
  if channel.hasSender then
    (some channel.value, { channel with value, version := channel.version + 1 })
  else (none, channel)

/-- Gives the sender up.  The answer says whether there still was one. -/
def dropSender (channel : Channel) : Bool × Channel :=
  (channel.hasSender, { channel with hasSender := false })

/-- A channel that was given up at once. -/
def abandoned : Channel := (new false).dropSender.2

end Channel

/-- One party that receives the values of a channel. -/
structure Receiver where
  /-- The version seen last. -/
  seen : UInt64
  deriving DecidableEq, Repr

namespace Receiver

/-- A receiver as a channel comes with it: it has seen the first version. -/
def new : Receiver := ⟨0⟩

/-- Takes the latest value, and counts it as seen. -/
def take (channel : Channel) (_receiver : Receiver) : Bool × Receiver :=
  (channel.value, ⟨channel.version⟩)

/-- What a receiver finds that asks for a version it has not seen. -/
inductive News
  /-- There is one, and it counts as seen now. -/
  | unseen (receiver : Receiver)
  /-- There is none, and there will be none. -/
  | closed
  /-- There is none so far. -/
  | nothing
  deriving DecidableEq, Repr

/-- Asks for a version that was not seen.  Whether there is a sender matters
only if there is none. -/
def news (channel : Channel) (receiver : Receiver) : News :=
  if receiver.seen ≠ channel.version then .unseen ⟨channel.version⟩
  else if channel.hasSender then .nothing
  else .closed

/-- A value that was just taken is not news. -/
theorem news_take (channel : Channel) (receiver : Receiver) :
    news channel (receiver.take channel).2 = if channel.hasSender then .nothing else .closed :=
  if_neg fun h => h rfl

/-- Polls a wait for the value `true` once.  The answer says whether the wait is
over.  On a channel without a sender it goes on for ever, unless the last value
was `true`. -/
def wait (channel : Channel) (receiver : Receiver) : Bool × Receiver :=
  let taken := receiver.take channel
  if taken.1 then (true, taken.2)
  else
    match _hnews : taken.2.news channel with
    | .unseen receiver => wait channel receiver
    | .closed => (false, taken.2)
    | .nothing => (false, taken.2)
termination_by if receiver.seen = channel.version then 0 else 1
decreasing_by
  -- there is no second round: what was just taken is not news
  rw [news_take] at _hnews
  split at _hnews <;> cases _hnews

end Receiver

/-- A listener with the receiver through which it learns of the signal. -/
structure Watcher where
  /-- Whether the receiver is one of the server's channel.  If not, it has a
  channel to itself that was given up at once. -/
  attached : Bool
  /-- Whether a wait has been over. -/
  signalled : Bool
  receiver : Receiver
  deriving DecidableEq, Repr

namespace Watcher

def new : Watcher := ⟨true, false, .new⟩

def never : Watcher := ⟨false, false, .new⟩

/-- The channel that a watcher receives from. -/
def channel (watcher : Watcher) (server : Channel) : Channel :=
  if watcher.attached then server else .abandoned

/-- Polls a wait for the signal once and gives it up.  The answer says whether
the wait was over.  There is nothing to wait for once it has been. -/
def poll (watcher : Watcher) (server : Channel) : Bool × Watcher :=
  if watcher.signalled then (true, watcher)
  else
    let (signalled, receiver) := watcher.receiver.wait (watcher.channel server)
    (signalled, { watcher with signalled, receiver })

end Watcher

/-- A channel and the watchers of a signal, numbered from zero. -/
structure Watch where
  channel : Channel
  watchers : List Watcher
  deriving DecidableEq, Repr

namespace Watch

open Shutdown (Action Answer)

def start (value : Bool) (first : Watcher) : Watch :=
  ⟨.new value, [first]⟩

def add (watch : Watch) (watcher : Watcher) : Answer × Watch :=
  (.added watch.watchers.length, { watch with watchers := watch.watchers ++ [watcher] })

def step (watch : Watch) : Action → Answer × Watch
  | .send value =>
    let (before?, channel) := watch.channel.send value
    (.previous before?, { watch with channel })
  | .dropSender =>
    let (had, channel) := watch.channel.dropSender
    (.hadSender had, { watch with channel })
  | .clone index =>
    match watch.watchers[index]? with
    | some watcher => watch.add watcher
    | none => (.unknownListener, watch)
  | .listen => watch.add .new
  | .poll index =>
    match watch.watchers[index]? with
    | some watcher =>
      let (answer, watcher) := watcher.poll watch.channel
      (.ready answer, { watch with watchers := watch.watchers.set index watcher })
    | none => (.unknownListener, watch)

/-- A sequence of actions, with the answer to each. -/
def run (watch : Watch) : List Action → List Answer × Watch
  | [] => ([], watch)
  | action :: rest =>
    let (answer, next) := watch.step action
    let (answers, last) := run next rest
    (answer :: answers, last)

end Watch

end LineStore
