/-!
# Values and tables of a TOML document

A document is a table of named values.  How a table came about decides how
later lines may add to it, so each table carries its origin.

* `Table.bind` adds one binding, perhaps through a dotted key.
* `Table.addSection` adds the bindings that follow a `[header]`, and
  `Table.addElement` those that follow a `[[header]]`.

Each answers `none` when the addition would define something twice.
-/

namespace LineStore.Toml

/-- How a table came about. -/
inductive Origin
  /-- It has a header of its own. -/
  | header
  /-- It was only named as part of a longer header. -/
  | implied
  /-- It was only named as part of a dotted key. -/
  | dotted
  /-- It was written out as a value. -/
  | inline
  deriving DecidableEq, Repr

/-- A value of a document. -/
inductive Value
  | text (text : String)
  | integer (number : Int)
  /-- A number with a fraction or an exponent, or one that is not finite.
  Settings have no such values, so nothing more is kept. -/
  | float
  | boolean (flag : Bool)
  | datetime
  | array (items : List Value)
  | table (origin : Origin) (entries : List (String × Value))
  /-- Tables that share a `[[header]]`. -/
  | tables (elements : List (List (String × Value)))

/-- Named values. -/
abbrev Table := List (String × Value)

namespace Table

def replace (table : Table) (key : String) (value : Value) : Table :=
  table.map fun entry => if entry.1 = key then (key, value) else entry

def modifyLast? (change : Table → Option Table) : List Table → Option (List Table)
  | [] => none
  | [last] => (change last).map fun table => [table]
  | first :: rest => (modifyLast? change rest).map (first :: ·)

/-- Binds a key in the table that `path` leads to by dotted keys.  A table on
the path must not have a header of its own, and the last one must have come
about by dotted keys alone. -/
def bind (key : String) (value : Value) : List String → Table → Option Table
  | [], table => if (table.lookup key).isSome then none else some (table ++ [(key, value)])
  | name :: path, table =>
    match table.lookup name with
    | none => do
      let inner ← bind key value path []
      some (table ++ [(name, .table .dotted inner)])
    | some (.table .dotted inner) => do
      let inner ← bind key value path inner
      some (table.replace name (.table .dotted inner))
    | some (.table .implied inner) =>
      if path.isEmpty then none
      else do
        let inner ← bind key value path inner
        some (table.replace name (.table .implied inner))
    | some (.tables elements) =>
      if path.isEmpty then none
      else do
        let elements ← modifyLast? (bind key value path) elements
        some (table.replace name (.tables elements))
    | some _ => none

/-- Changes the table that `path` leads to by a header.  Tables on the path
that are missing come about as implied ones; of tables that share a header
the last is meant. -/
def modifyAt (change : Table → Option Table) : List String → Table → Option Table
  | [], table => change table
  | name :: path, table =>
    match table.lookup name with
    | none => do
      let inner ← modifyAt change path []
      some (table ++ [(name, .table .implied inner)])
    | some (.table .inline _) => none
    | some (.table origin inner) => do
      let inner ← modifyAt change path inner
      some (table.replace name (.table origin inner))
    | some (.tables elements) => do
      let elements ← modifyLast? (modifyAt change path) elements
      some (table.replace name (.tables elements))
    | some _ => none

/-- A binding as written: the path and the last part of its key, and the
value. -/
structure Binding where
  path : List String
  key : String
  value : Value

def bindAll (table : Table) (bindings : List Binding) : Option Table :=
  bindings.foldlM (fun table b => table.bind b.key b.value b.path) table

/-- Adds the bindings under a `[header]`.  The table must be new, or only
implied so far. -/
def addSection (path : List String) (key : String) (bindings : List Binding) :
    Table → Option Table :=
  modifyAt (fun parent =>
    match parent.lookup key with
    | none => do
      let inner ← bindAll [] bindings
      some (parent ++ [(key, .table .header inner)])
    | some (.table .implied inner) => do
      let inner ← bindAll inner bindings
      some (parent.replace key (.table .header inner))
    | some _ => none) path

/-- Adds the bindings under a `[[header]]` as one more table. -/
def addElement (path : List String) (key : String) (bindings : List Binding) :
    Table → Option Table :=
  modifyAt (fun parent => do
    let element ← bindAll [] bindings
    match parent.lookup key with
    | none => some (parent ++ [(key, .tables [element])])
    | some (.tables elements) => some (parent.replace key (.tables (elements ++ [element])))
    | some _ => none) path

end Table

end LineStore.Toml
