import LineStore.Bytes

/-!
# UTF-8

The decoder is a machine that reads one byte at a time.  Between two
characters it looks at a lead byte; inside a character it knows the range of
the next byte and the number of bytes after that one.  The narrowed ranges
after the lead bytes `E0`, `ED`, `F0` and `F4` keep out overlong forms,
surrogates and code points above `10FFFF`.

* `Utf8.segments` divides any byte string into characters and faulty runs.  A
  faulty run is the longest start of a character that the bytes hold.
* `Utf8.decode` succeeds exactly when every segment is a character, and
  otherwise names the first faulty run.
* `Utf8.decodeLossy` reads a replacement character for each faulty run.
* `Utf8.encode` is the way back.
-/

namespace LineStore.Utf8

/-- The UTF-8 form of a text. -/
def encode (text : List Char) : Bytes :=
  text.flatMap String.utf8EncodeChar

def ofString (text : String) : Bytes :=
  encode text.toList

/-- Where the decoder stands: between two characters, or inside one whose
next byte lies in `lo..hi` and is followed by `more` further bytes.  `bits`
is the part of the code point read so far. -/
inductive Phase
  | between
  | inside (lo hi : UInt8) (more : Nat) (bits : Nat)
  deriving DecidableEq, Repr

/-- The step at the first byte of a character, if the byte can stand there. -/
def Phase.lead (byte : UInt8) : Option (Phase × Option Char) :=
  if byte < 0x80 then some (.between, some (Char.ofNat byte.toNat))
  else if byte < 0xC2 then none
  else if byte < 0xE0 then some (.inside 0x80 0xBF 0 (byte.toNat - 0xC0), none)
  else if byte = 0xE0 then some (.inside 0xA0 0xBF 1 0, none)
  else if byte = 0xED then some (.inside 0x80 0x9F 1 0xD, none)
  else if byte < 0xF0 then some (.inside 0x80 0xBF 1 (byte.toNat - 0xE0), none)
  else if byte = 0xF0 then some (.inside 0x90 0xBF 2 0, none)
  else if byte < 0xF4 then some (.inside 0x80 0xBF 2 (byte.toNat - 0xF0), none)
  else if byte = 0xF4 then some (.inside 0x80 0x8F 2 4, none)
  else none

/-- The step of the machine at one byte: the next phase, and the character
that the byte completes.  `none` means that the byte cannot stand here. -/
def Phase.step : Phase → UInt8 → Option (Phase × Option Char)
  | .between, byte => lead byte
  | .inside lo hi more bits, byte =>
    if lo ≤ byte ∧ byte ≤ hi then
      let bits := bits * 64 + (byte.toNat - 0x80)
      match more with
      | 0 => some (.between, some (Char.ofNat bits))
      | more + 1 => some (.inside 0x80 0xBF more bits, none)
    else none

/-- One part of a byte string: a character, a run of `size` bytes that starts
a character and is not continued as one, or such a run at the end of the
bytes. -/
inductive Segment
  | char (c : Char)
  | broken (size : Nat)
  | unfinished (size : Nat)
  deriving DecidableEq, Repr

/-- The progress of a decoder: its phase, the number of bytes read of the
character it is inside of, and the segments found so far, the latest first. -/
structure Scan where
  phase : Phase
  size : Nat
  found : List Segment

def Scan.start : Scan := ⟨.between, 0, []⟩

/-- The decoder at a byte that must start a character. -/
def Scan.begin (found : List Segment) (byte : UInt8) : Scan :=
  match Phase.lead byte with
  | some (phase, none) => ⟨phase, 1, found⟩
  | some (_, some c) => ⟨.between, 0, .char c :: found⟩
  | none => ⟨.between, 0, .broken 1 :: found⟩

/-- The decoder one byte further.  A byte that does not continue the open
character closes it as a broken run, and is then read as a first byte. -/
def Scan.push (scan : Scan) (byte : UInt8) : Scan :=
  match scan.phase with
  | .between => Scan.begin scan.found byte
  | .inside .. =>
    match scan.phase.step byte with
    | some (phase, none) => ⟨phase, scan.size + 1, scan.found⟩
    | some (_, some c) => ⟨.between, 0, .char c :: scan.found⟩
    | none => Scan.begin (.broken scan.size :: scan.found) byte

/-- The segments in order, with an open character closed as unfinished. -/
def Scan.finish (scan : Scan) : List Segment :=
  match scan.phase with
  | .between => scan.found.reverse
  | .inside .. => (.unfinished scan.size :: scan.found).reverse

/-- The division of a byte string into characters and faulty runs. -/
def segments (bytes : Bytes) : List Segment :=
  (bytes.foldl Scan.push Scan.start).finish

/-- Why a byte string is not UTF-8: a run of `size` bytes at index `start`
that is no character, or a character at index `start` cut off by the end. -/
inductive Fault
  | broken (size start : Nat)
  | unfinished (start : Nat)
  deriving DecidableEq, Repr

def Fault.message : Fault → String
  | .broken size start => s!"invalid utf-8 sequence of {size} bytes from index {start}"
  | .unfinished start => s!"incomplete utf-8 byte sequence from index {start}"

/-- The first fault among segments of which the first starts at index `start`. -/
def firstFault? : Nat → List Segment → Option Fault
  | _, [] => none
  | start, .char c :: rest => firstFault? (start + c.utf8Size) rest
  | start, .broken size :: _ => some (.broken size start)
  | start, .unfinished _ :: _ => some (.unfinished start)

def Segment.char? : Segment → Option Char
  | .char c => some c
  | .broken _ => none
  | .unfinished _ => none

/-- The text of a byte string, or its first fault. -/
def decode (bytes : Bytes) : Except Fault (List Char) :=
  match firstFault? 0 (segments bytes) with
  | some fault => .error fault
  | none => .ok ((segments bytes).filterMap Segment.char?)

/-- The text of a byte string, as a string, or its first fault. -/
def toString? (bytes : Bytes) : Except Fault String :=
  (decode bytes).map String.ofList

/-- The text of a byte string with U+FFFD for each faulty run. -/
def decodeLossy (bytes : Bytes) : String :=
  String.ofList ((segments bytes).map fun segment => segment.char?.getD '\uFFFD')

end LineStore.Utf8
