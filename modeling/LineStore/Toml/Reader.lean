/-!
# Reading text from the left

A reader takes some characters off the front of a text, or fails and takes
none.  `Reader.many` repeats a reader until it fails; the rest of the text
bounds the number of repetitions.
-/

namespace LineStore.Toml

/-- A reader of the front of a text. -/
abbrev Reader := StateT (List Char) Option

namespace Reader

variable {α : Type}

def atEnd : Reader Unit := fun text =>
  if text.isEmpty then some ((), text) else none

def satisfy (isMember : Char → Bool) : Reader Char
  | [] => none
  | c :: rest => if isMember c then some (c, rest) else none

def char (c : Char) : Reader Unit := do
  let _ ← satisfy (· == c)

def chars : List Char → Reader Unit
  | [] => pure ()
  | c :: rest => do
    char c
    chars rest

def word (text : String) : Reader Unit :=
  chars text.toList

/-- Takes the longest run of characters of a class. -/
def takeWhile (isMember : Char → Bool) : Reader (List Char) := fun text =>
  some (text.span isMember)

/-- Takes the longest run of characters of a class, at least one. -/
def takeSome (isMember : Char → Bool) : Reader (List Char) := do
  let run ← takeWhile isMember
  if run.isEmpty then failure else pure run

def exactly (count : Nat) (isMember : Char → Bool) : Reader (List Char) := fun text =>
  let (front, rest) := text.splitAt count
  if front.length = count ∧ front.all isMember then some (front, rest) else none

/-- Repeats a reader at most once for each character of `bound`.  `found`
holds earlier results, the latest first. -/
def manyWithin (reader : Reader α) : (bound : List Char) → List α → Reader (List α)
  | [], found, text => some (found.reverse, text)
  | _ :: bound, found, text =>
    match reader text with
    | some (value, rest) => manyWithin reader bound (value :: found) rest
    | none => some (found.reverse, text)

/-- Repeats a reader until it fails.  A reader that takes a character each
time can be repeated no more often than the text is long. -/
def many (reader : Reader α) : Reader (List α) := fun text =>
  manyWithin reader text [] text

/-- Reads a list of things with a separator between each two of them. -/
def separated (reader : Reader α) (separator : Reader Unit) : Reader (List α) := do
  let first ← reader
  let more ← many (do separator; reader)
  pure (first :: more)

/-- Reads a text to its end. -/
def run? (reader : Reader α) (text : List Char) : Option α :=
  match reader text with
  | some (value, []) => some value
  | _ => none

end Reader

end LineStore.Toml
