import LineStore.Command
import LineStore.Store.Shard
import LineStore.Text.Utf8

/-!
# The store

The store maps keys to values.  Its bindings are spread over
`Store.shardCount` shards by a function of the key, and it counts its keys and
the operations done on it.  One value is reserved: a `put` of it is refused.

* `Store.put`, `Store.get` and `Store.delete` are the operations.
* `Store.apply` does the operation that a command asks for.
* `Store.get?` is the plain view of the store as a map; it counts nothing.

The counters wrap at `2 ^ 64`.
-/

namespace LineStore

/-- The key count of a store and the number of operations it has seen. -/
structure Store.Counters where
  keys : UInt64
  gets : UInt64
  puts : UInt64
  /-- The deletes, of bound and of unbound keys. -/
  deletes : UInt64
  refused : UInt64
  deriving DecidableEq, Repr

def Store.shardCount : Nat := 64

/-- A sharded map with its counters.  `place` says which shard holds a key. -/
structure Store where
  place : Bytes → Fin Store.shardCount
  shards : Vector Shard Store.shardCount
  counters : Store.Counters

namespace Store

/-- The value that no client may store. -/
def reserved : Bytes := Utf8.ofString "__TOMBSTONE__"

/-- A refusal to store a value. -/
inductive Refusal
  | reservedValue (value : Bytes)
  deriving DecidableEq, Repr

def Refusal.message : Refusal → String
  | reservedValue value => s!"{Utf8.decodeLossy value} is a reserved keyword"

/-- A store without keys, whose keys go where `place` says. -/
def empty (place : Bytes → Fin shardCount) : Store :=
  { place, shards := Vector.replicate shardCount [], counters := ⟨0, 0, 0, 0, 0⟩ }

/-- The value bound to a key. -/
def get? (store : Store) (key : Bytes) : Option Bytes :=
  (store.shards.get (store.place key)).get? key

/-- The store with one shard changed, and nothing counted. -/
def modifyShard (store : Store) (key : Bytes) (change : Shard → Shard) : Store :=
  let index := store.place key
  { store with shards := store.shards.set index (change (store.shards.get index)) }

def count (store : Store) (change : Counters → Counters) : Store :=
  { store with counters := change store.counters }

/-- Binds `key` to `value`.  The answer says whether the key is new.  The
reserved value is refused, and then nothing but the refusals changes. -/
def put (store : Store) (key value : Bytes) : Except Refusal Bool × Store :=
  if value = reserved then
    (.error (.reservedValue value), store.count fun c => { c with refused := c.refused + 1 })
  else
    let isNew := (store.get? key).isNone
    let store := store.count fun c => { c with puts := c.puts + 1 }
    let store := store.modifyShard key (·.insert key value)
    (.ok isNew, if isNew then store.count fun c => { c with keys := c.keys + 1 } else store)

def get (store : Store) (key : Bytes) : Option Bytes × Store :=
  (store.get? key, store.count fun c => { c with gets := c.gets + 1 })

/-- Removes a key.  The answer says whether it was bound. -/
def delete (store : Store) (key : Bytes) : Bool × Store :=
  let existed := (store.get? key).isSome
  let store := store.count fun c => { c with deletes := c.deletes + 1 }
  let store := store.modifyShard key (·.erase key)
  (existed, if existed then store.count fun c => { c with keys := c.keys - 1 } else store)

def size (store : Store) : UInt64 :=
  store.counters.keys

def isEmpty (store : Store) : Bool :=
  store.size == 0

/-- The bindings of all shards. -/
def toList (store : Store) : List (Bytes × Bytes) :=
  store.shards.toList.flatten

/-- What an operation on the store answers. -/
inductive Answer
  | stored (isNew : Bool)
  | refused (refusal : Refusal)
  | found (value? : Option Bytes)
  | deleted (existed : Bool)
  deriving DecidableEq, Repr

def apply (store : Store) : Command Bytes → Answer × Store
  | .put key value =>
    match store.put key value with
    | (.ok isNew, next) => (.stored isNew, next)
    | (.error refusal, next) => (.refused refusal, next)
  | .get key => let (value?, next) := store.get key; (.found value?, next)
  | .delete key => let (existed, next) := store.delete key; (.deleted existed, next)

/-- The answers to a sequence of commands, and the store after them. -/
def applyAll (store : Store) : List (Command Bytes) → List Answer × Store
  | [] => ([], store)
  | command :: rest =>
    let (answer, next) := store.apply command
    let (answers, last) := applyAll next rest
    (answer :: answers, last)

/-- Spreads keys over the shards by a polynomial in their bytes. -/
def spread (key : Bytes) : Fin shardCount :=
  ⟨key.foldl (fun sum byte => (sum * 31 + byte.toNat) % 65521) 7 % shardCount,
    Nat.mod_lt _ (by decide)⟩

/-- A store without keys, with keys spread evenly. -/
def new : Store := empty spread

/-- A one-line summary: the number of shards and the number of keys. -/
def summary (store : Store) : String :=
  s!"StorageEngine \x7b shards: {shardCount}, key_count: {store.size} \x7d"

end Store

end LineStore
