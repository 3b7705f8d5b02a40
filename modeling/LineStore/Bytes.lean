/-!
# Byte strings

Everything that crosses a connection is a list of bytes.  This module names
that type and says how a byte string falls into lines.

* `Bytes.lineEnd?` finds the end of the first line.
* `Bytes.cutLines` is the division of a whole stream: its complete lines, and
  the tail that no newline has ended yet.
* `Bytes.pieces` cuts a byte string into runs of a bounded size.
-/

namespace LineStore

/-- A string of bytes. -/
abbrev Bytes := List UInt8

namespace Bytes

/-- The byte that ends a line. -/
def newline : UInt8 := 10

/-- The position of the first newline. -/
def lineEnd? (bytes : Bytes) : Option Nat :=
  bytes.idxOf? newline

/-- A line is shorter than the bytes it was found in. -/
theorem lt_length_of_lineEnd? {bytes : Bytes} {size : Nat} (h : lineEnd? bytes = some size) :
    size < bytes.length :=
  (List.idxOf?_eq_some_iff.mp h).1

/-- What one more byte in front does to a division into lines. -/
def cutStep (byte : UInt8) : List Bytes × Bytes → List Bytes × Bytes
  | (lines, tail) =>
    if byte = newline then ([] :: lines, tail)
    else
      match lines with
      | [] => ([], byte :: tail)
      | line :: more => ((byte :: line) :: more, tail)

/-- The complete lines of a stream, without their newlines, and the bytes
after the last newline. -/
def cutLines (bytes : Bytes) : List Bytes × Bytes :=
  bytes.foldr cutStep ([], [])

/-- A byte string cut into non-empty runs of at most `size` bytes, for a
positive `size`. -/
def pieces (size : Nat) (bytes : Bytes) : List Bytes :=
  if size = 0 ∨ bytes = [] then []
  else bytes.take size :: pieces size (bytes.drop size)
termination_by bytes.length
decreasing_by
  rename_i h
  have hb : bytes.length ≠ 0 := fun hl => h (.inr (List.length_eq_zero_iff.mp hl))
  rw [List.length_drop]
  omega

end Bytes

end LineStore
