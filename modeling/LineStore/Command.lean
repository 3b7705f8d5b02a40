import LineStore.Bytes

/-!
# Commands

The three things a client can ask of the store.  `Command α` is generic in
what stands for a key or a value: the parser produces words with their places
in the line, and the store works on bytes.
-/

namespace LineStore

/-- The verb that opens a request line. -/
inductive Verb
  | put
  | get
  | delete
  deriving DecidableEq, Repr

namespace Verb

/-- The canonical spelling of a verb. -/
def name : Verb → String
  | put => "PUT"
  | get => "GET"
  | delete => "DELETE"

/-- The number of words that follow the verb. -/
def arity : Verb → Nat
  | put => 2
  | get => 1
  | delete => 1

/-- The verb that a word spells, whatever the case of its ASCII letters. -/
def ofWord? (word : List Char) : Option Verb :=
  [put, get, delete].find? fun verb => verb.name.toList == word.map Char.toUpper

end Verb

/-- A request to the store. -/
inductive Command (α : Type)
  | put (key value : α)
  | get (key : α)
  | delete (key : α)
  deriving DecidableEq, Repr

namespace Command

variable {α β : Type}

def verb : Command α → Verb
  | put .. => .put
  | get _ => .get
  | delete _ => .delete

def key : Command α → α
  | put key _ => key
  | get key => key
  | delete key => key

def value? : Command α → Option α
  | put _ value => some value
  | get _ => none
  | delete _ => none

def map (f : α → β) : Command α → Command β
  | put key value => put (f key) (f value)
  | get key => get (f key)
  | delete key => delete (f key)

end Command

end LineStore
