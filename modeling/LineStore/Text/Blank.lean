import LineStore.Text.Utf8

/-!
# Blanks and words

A blank is a character with the Unicode property `White_Space`.  Blanks
separate the words of a request line, and a text of blanks alone counts as
empty.

* `Text.isBlank` is the property, as a table of ranges.
* `Text.words` finds the maximal runs of other characters, each with its
  place in the UTF-8 form of the text.
* `Text.trim` takes the blanks off both ends.
-/

namespace LineStore.Text

/-- The code points with the property `White_Space`, as closed ranges. -/
def blankRanges : List (Nat × Nat) :=
  [(0x09, 0x0D), (0x20, 0x20), (0x85, 0x85), (0xA0, 0xA0), (0x1680, 0x1680),
    (0x2000, 0x200A), (0x2028, 0x2029), (0x202F, 0x202F), (0x205F, 0x205F),
    (0x3000, 0x3000)]

/-- Tells whether a character is white space. -/
def isBlank (c : Char) : Bool :=
  blankRanges.any fun (lo, hi) => lo ≤ c.toNat && c.toNat ≤ hi

/-- The text from its first non-blank character on. -/
def trimStart (text : List Char) : List Char :=
  text.dropWhile isBlank

def trimEnd (text : List Char) : List Char :=
  (trimStart text.reverse).reverse

def trim (text : List Char) : List Char :=
  trimEnd (trimStart text)

def byteCount (text : List Char) : Nat :=
  text.foldl (fun count c => count + c.utf8Size) 0

/-- A maximal run of non-blank characters.  `start` is the number of bytes
before it in the UTF-8 form of the text it was found in. -/
structure Word where
  start : Nat
  chars : List Char
  deriving DecidableEq, Repr

def Word.bytes (word : Word) : Bytes :=
  Utf8.encode word.chars

def Word.toString (word : Word) : String :=
  String.ofList word.chars

/-- The maximal runs of blanks and of non-blanks, in turn. -/
def runs (text : List Char) : List (List Char) :=
  text.splitBy fun a b => isBlank a == isBlank b

/-- The words among runs of which the first starts at byte `start`.  `found`
holds earlier words, the latest first. -/
def wordsOfRuns : Nat → List Word → List (List Char) → List Word
  | _, found, [] => found.reverse
  | start, found, run :: rest =>
    wordsOfRuns (start + byteCount run)
      (if run.any isBlank then found else ⟨start, run⟩ :: found) rest

/-- The words of a text, in order. -/
def words (text : List Char) : List Word :=
  wordsOfRuns 0 [] (runs text)

end LineStore.Text
