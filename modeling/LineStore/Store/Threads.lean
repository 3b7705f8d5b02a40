import LineStore.Store

/-!
# Threads on one store

When several threads use a store at once, a put or a delete is not a single
step.  It counts itself, takes the lock of its key's shard, changes the shard,
corrects the key count if a key was added or removed, and gives the lock back.
Each of these is atomic, and the steps of other threads may come between them.

* `Threads.step` is the next step of one thread.  A thread has no step while
  another one holds the lock that it needs.
* `Threads.run` follows a schedule, which names the thread of each step.
* `Threads.bound`, `Threads.addedUncounted` and `Threads.removedUncounted` are
  what the key count is to be compared with.

The key count is an integer here, so that a count below zero would show.
-/

namespace LineStore.Store

/-- A change that a thread makes to the store. -/
inductive Change
  | put (key value : Bytes)
  | delete (key : Bytes)
  deriving DecidableEq, Repr

namespace Change

def key : Change → Bytes
  | put key _ => key
  | delete key => key

def isRefused : Change → Bool
  | put _ value => value = reserved
  | delete _ => false

/-- The shard after a change. -/
def applyTo : Change → Shard → Shard
  | put key value, shard => shard.insert key value
  | delete key, shard => shard.erase key

/-- Tells whether a change adds a key to a shard, or removes one from it. -/
def movesKey : Change → Shard → Bool
  | put key _, shard => (shard.get? key).isNone
  | delete key, shard => (shard.get? key).isSome

/-- By how much the key count changes when a key is added or removed. -/
def weight : Change → Int
  | put .. => 1
  | delete _ => -1

end Change

/-- How far a thread is with a change. -/
inductive Stage
  /-- It has not begun. -/
  | idle
  /-- The operation is counted. -/
  | counted
  /-- The thread holds the lock of the key's shard. -/
  | locked
  /-- A key was added or removed, and the key count does not tell yet. -/
  | uncounted
  /-- All is done but to give the lock back. -/
  | finished
  deriving DecidableEq, Repr

/-- A thread: the changes it still has to make, and how far it is with the
first of them. -/
structure Thread where
  changes : List Change
  stage : Stage
  deriving DecidableEq, Repr

/-- A store in use by threads. -/
structure Threads where
  place : Bytes → Fin shardCount
  shards : Vector Shard shardCount
  puts : UInt64
  deletes : UInt64
  refused : UInt64
  keys : Int
  /-- The thread that holds the lock of each shard, if one does. -/
  holders : Vector (Option Nat) shardCount
  threads : List Thread

namespace Threads

/-- Threads that have not begun, on a store without keys. -/
def start (place : Bytes → Fin shardCount) (programs : List (List Change)) : Threads :=
  { place
    shards := Vector.replicate shardCount []
    puts := 0
    deletes := 0
    refused := 0
    keys := 0
    holders := Vector.replicate shardCount none
    threads := programs.map fun changes => ⟨changes, .idle⟩ }

def setThread (state : Threads) (id : Nat) (thread : Thread) : Threads :=
  { state with threads := state.threads.set id thread }

def countOperation (state : Threads) (change : Change) : Threads :=
  match change with
  | .put .. =>
    if change.isRefused then { state with refused := state.refused + 1 }
    else { state with puts := state.puts + 1 }
  | .delete _ => { state with deletes := state.deletes + 1 }

/-- The next step of thread `id`, of which `change` is the first change and
`later` the others. -/
def stepChange (state : Threads) (id : Nat) (change : Change) (later : List Change) :
    Stage → Option Threads
  | .idle =>
    let thread := if change.isRefused then ⟨later, .idle⟩ else ⟨change :: later, .counted⟩
    some ((state.countOperation change).setThread id thread)
  | .counted =>
    let index := state.place change.key
    if (state.holders.get index).isSome then none
    else
      some ({ state with holders := state.holders.set index (some id) }.setThread id
        ⟨change :: later, .locked⟩)
  | .locked =>
    let index := state.place change.key
    let shard := state.shards.get index
    let stage := if change.movesKey shard then .uncounted else .finished
    some ({ state with shards := state.shards.set index (change.applyTo shard) }.setThread id
      ⟨change :: later, stage⟩)
  | .uncounted =>
    some ({ state with keys := state.keys + change.weight }.setThread id
      ⟨change :: later, .finished⟩)
  | .finished =>
    let index := state.place change.key
    some ({ state with holders := state.holders.set index none }.setThread id
      ⟨later, .idle⟩)

def step (state : Threads) (id : Nat) : Option Threads :=
  match state.threads[id]? with
  | some ⟨change :: later, stage⟩ => state.stepChange id change later stage
  | some ⟨[], _⟩ => none
  | none => none

/-- Follows a schedule.  A thread that has no step when it is named is passed
over. -/
def run (state : Threads) (schedule : List Nat) : Threads :=
  schedule.foldl (fun state id => (state.step id).getD state) state

/-- The number of keys that are bound. -/
def bound (state : Threads) : Nat :=
  state.shards.toList.flatten.length

/-- The number of threads that have added a key and not counted it. -/
def addedUncounted (state : Threads) : Nat :=
  state.threads.countP fun thread =>
    match thread with
    | ⟨.put .. :: _, .uncounted⟩ => true
    | _ => false

/-- The number of threads that have removed a key which is still counted. -/
def removedUncounted (state : Threads) : Nat :=
  state.threads.countP fun thread =>
    match thread with
    | ⟨.delete _ :: _, .uncounted⟩ => true
    | _ => false

end Threads

end LineStore.Store
