import LineStore.Store

/-!
# A concurrent workload

Several threads work on one store.  Each has keys of its own, which it binds,
looks up and perhaps removes, and at the end all of them try to remove one
shared key.  Every operation is atomic, so a run of the threads is some order
of their tasks in which the tasks of each thread keep their own order.

* `Workload.thread` is what one thread does.
* `Workload.run` does tasks in a given order and tallies the answers.
* `Workload.Interleaving` are the orders that threads can run in.
-/

namespace LineStore.Workload

/-- One operation of a thread, and what its answer counts for. -/
inductive Task
  | quiet (command : Command Bytes)
  /-- The expected answer counts as a successful check. -/
  | check (command : Command Bytes) (expected : Store.Answer)
  /-- The expected answer counts as a win. -/
  | contest (command : Command Bytes) (expected : Store.Answer)
  deriving DecidableEq, Repr

/-- The key that all threads try to remove. -/
def contended : Bytes := Utf8.ofString "contended"

def keyOf (i j : Nat) : Bytes := Utf8.ofString s!"key-{i}-{j}"

/-- The value that thread `i` binds to its key with number `j`. -/
def valueOf (i j : Nat) : Bytes := Utf8.ofString s!"value-{i * j}"

/-- Tells whether a thread removes its key with number `j`. -/
def removes (deleteEvery j : Nat) : Bool :=
  0 < deleteEvery && j % deleteEvery == 0

/-- What thread `i` does with its key with number `j`. -/
def keyTasks (deleteEvery i j : Nat) : List Task :=
  [.quiet (.put (keyOf i j) (valueOf i j)),
    .check (.get (keyOf i j)) (.found (some (valueOf i j)))] ++
    if removes deleteEvery j then [.check (.delete (keyOf i j)) (.deleted true)] else []

def thread (keys deleteEvery i : Nat) : List Task :=
  (List.range keys).flatMap (keyTasks deleteEvery i) ++
    [.contest (.delete contended) (.deleted true)]

def threads (count keys deleteEvery : Nat) : List (List Task) :=
  (List.range count).map (thread keys deleteEvery)

/-- The checks that succeeded and the contests that were won. -/
structure Tally where
  checks : Nat
  winners : Nat
  deriving DecidableEq, Repr

def step (state : Tally × Store) : Task → Tally × Store
  | .quiet command => (state.1, (state.2.apply command).2)
  | .check command expected =>
    let (answer, next) := state.2.apply command
    ({ state.1 with checks := state.1.checks + if answer = expected then 1 else 0 }, next)
  | .contest command expected =>
    let (answer, next) := state.2.apply command
    ({ state.1 with winners := state.1.winners + if answer = expected then 1 else 0 }, next)

def run (store : Store) (tasks : List Task) : Tally × Store :=
  tasks.foldl step (⟨0, 0⟩, store)

/-- The store before the threads start: the contended key is bound. -/
def start (store : Store) : Store :=
  (store.put contended (Utf8.ofString "value")).2

/-- The orders in which threads can do their tasks: each step takes the next
task of some thread. -/
inductive Interleaving {α : Type} : List (List α) → List α → Prop
  | done {threads : List (List α)} (isOver : ∀ thread ∈ threads, thread = []) :
    Interleaving threads []
  | next {before after : List (List α)} {task : α} {rest order : List α}
      (later : Interleaving (before ++ rest :: after) order) :
    Interleaving (before ++ (task :: rest) :: after) (task :: order)

end LineStore.Workload
