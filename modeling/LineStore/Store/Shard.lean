import LineStore.Bytes

/-!
# Shards

A shard is one part of the store: a table of keys and values.  `Shard.get?`,
`Shard.insert` and `Shard.erase` keep every key in it at most once.
-/

namespace LineStore

/-- A table of keys and their values. -/
abbrev Shard := List (Bytes × Bytes)

namespace Shard

def get? (shard : Shard) (key : Bytes) : Option Bytes :=
  shard.lookup key

/-- Binds a key, in the place of its old binding if there is one. -/
def insert : Shard → Bytes → Bytes → Shard
  | [], key, value => [(key, value)]
  | (k, v) :: rest, key, value =>
    if k = key then (key, value) :: rest else (k, v) :: insert rest key value

def erase (shard : Shard) (key : Bytes) : Shard :=
  shard.eraseP fun binding => binding.1 == key

end Shard

end LineStore
