import LineStore.Toml.Scalar

/-!
# TOML documents

`Toml.document?` reads a whole document into a table.  Values nest no deeper
than `depthLimit`, and the reader of a value goes down by one level for each
array or table that it enters.
-/

namespace LineStore.Toml

open Reader

/-- Takes an array.  A comma may follow the last item. -/
def array (item : Reader Value) : Reader Value := do
  char '['
  let items ←
    separated (do spaceAndLines; let value ← item; spaceAndLines; pure value) (char ',') <|>
      pure []
  if !items.isEmpty then
    let _ ← optional (char ',')
  spaceAndLines
  char ']'
  pure (.array items)

def binding (value : Reader Value) : Reader Table.Binding := do
  let (path, name) ← key
  char '='
  space
  return ⟨path, name, ← value⟩

/-- Takes a table written out as a value, on one line. -/
def inlineTable (value : Reader Value) : Reader Value := do
  char '{'
  space
  let bindings ←
    separated (do let b ← binding value; space; pure b) (char ',') <|> pure []
  char '}'
  match Table.bindAll [] bindings with
  | some entries => pure (.table .inline entries)
  | none => failure

/-- Takes a value, with at most `depth` levels of arrays and tables in it. -/
def value : Nat → Reader Value
  | 0 => scalar
  | depth + 1 => scalar <|> array (value depth) <|> inlineTable (value depth)

/-- One line of a document. -/
inductive Line
  | blank
  | header (path : List String) (key : String)
  | elementHeader (path : List String) (key : String)
  | binding (binding : Table.Binding)

def line : Reader Line := do
  space
  (do lineEnd; pure .blank) <|>
    (do comment; lineEnd <|> atEnd; pure .blank) <|>
    (do
      word "[["
      let (path, name) ← key
      word "]]"
      restOfLine
      pure (.elementHeader path name)) <|>
    (do
      char '['
      let (path, name) ← key
      char ']'
      restOfLine
      pure (.header path name)) <|>
    (do
      let b ← binding (value (depthLimit - 1))
      restOfLine
      pure (.binding b))

/-- A header with the bindings under it.  `isElement` tells a `[[header]]`
from a `[header]`. -/
structure Section where
  isElement : Bool
  path : List String
  key : String
  bindings : List Table.Binding

/-- What one more line in front does to a division into sections: the bindings
before the first header, and the sections. -/
def sectionStep : Line → List Table.Binding × List Section → List Table.Binding × List Section
  | .blank, division => division
  | .binding b, (bindings, sections) => (b :: bindings, sections)
  | .header path key, (bindings, sections) =>
    ([], ⟨false, path, key, bindings⟩ :: sections)
  | .elementHeader path key, (bindings, sections) =>
    ([], ⟨true, path, key, bindings⟩ :: sections)

def Section.addTo (part : Section) (table : Table) : Option Table :=
  if part.isElement then table.addElement part.path part.key part.bindings
  else table.addSection part.path part.key part.bindings

/-- The table that lines describe. -/
def tableOf (lines : List Line) : Option Table := do
  let (bindings, sections) := lines.foldr sectionStep ([], [])
  sections.foldlM (fun table part => part.addTo table) (← Table.bindAll [] bindings)

/-- Takes all lines, after a byte order mark if there is one. -/
def allLines : Reader (List Line) := do
  let _ ← optional (char '\uFEFF')
  let lines ← many line
  space
  pure lines

/-- The table that a document describes, if the text is a document. -/
def document? (text : List Char) : Option Table := do
  tableOf (← allLines.run? text)

end LineStore.Toml
