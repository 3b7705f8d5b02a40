import LineStore.Toml.Reader
import LineStore.Toml.Value

/-!
# Keys and plain values of a TOML document

The readers for everything that is not made of other values: blanks and line
ends, keys, strings, numbers, truth values, dates and times.  They follow
version 1.0 of the format.
-/

namespace LineStore.Toml

open Reader

/-! ## Blanks, comments and line ends -/

/-- Tells whether a character is a blank within a line. -/
def isSpace (c : Char) : Bool :=
  c == ' ' || c == '\t'

def space : Reader Unit := do
  let _ ← takeWhile isSpace

/-- Takes a line end, with or without a carriage return. -/
def lineEnd : Reader Unit := do
  let _ ← optional (char '\r')
  char '\n'

/-- Tells whether a character may stand in a comment: all but the control
characters, and the tab of these. -/
def isCommentChar (c : Char) : Bool :=
  c == '\t' || (' ' ≤ c && c ≠ '\x7f')

def comment : Reader Unit := do
  char '#'
  let _ ← takeWhile isCommentChar

/-- Takes the rest of a line that holds nothing more, with its end. -/
def restOfLine : Reader Unit := do
  space
  let _ ← optional comment
  lineEnd <|> atEnd

def spaceAndLines : Reader Unit := do
  let _ ← many ((do let _ ← takeSome isSpace) <|> lineEnd <|> (do comment; lineEnd))

/-! ## Strings -/

def hexValue (c : Char) : Nat :=
  if c.isDigit then c.toNat - '0'.toNat
  else if 'a' ≤ c then c.toNat - 'a'.toNat + 10
  else c.toNat - 'A'.toNat + 10

/-- Tells whether a character is a hexadecimal digit. -/
def isHexDigit (c : Char) : Bool :=
  c.isDigit || ('a' ≤ c && c ≤ 'f') || ('A' ≤ c && c ≤ 'F')

/-- The number that digits stand for in a base. -/
def numberOf (base : Nat) (digits : List Char) : Nat :=
  digits.foldl (fun number c => number * base + hexValue c) 0

/-- Takes the code point of a Unicode escape, written with `count` digits. -/
def codePoint (count : Nat) : Reader Char := do
  let number := numberOf 16 (← exactly count isHexDigit)
  if number.isValidChar then pure (Char.ofNat number) else failure

/-- The characters that a backslash makes of others. -/
def escapes : List (Char × Char) :=
  [('b', '\x08'), ('t', '\t'), ('n', '\n'), ('f', '\x0c'), ('r', '\r'), ('"', '"'),
    ('\\', '\\')]

def escape : Reader Char := do
  char '\\'
  match ← satisfy fun _ => true with
  | 'u' => codePoint 4
  | 'U' => codePoint 8
  | c =>
    match escapes.lookup c with
    | some escaped => pure escaped
    | none => failure

/-- Tells whether a character stands for itself between double quotes. -/
def isBasicChar (c : Char) : Bool :=
  isCommentChar c && c ≠ '"' && c ≠ '\\'

/-- Tells whether a character stands for itself between single quotes. -/
def isLiteralChar (c : Char) : Bool :=
  isCommentChar c && c ≠ '\''

/-- Takes a string in double quotes on one line. -/
def basicString : Reader String := do
  char '"'
  let body ← many (satisfy isBasicChar <|> escape)
  char '"'
  pure (String.ofList body)

/-- Takes a string in single quotes on one line. -/
def literalString : Reader String := do
  char '\''
  let body ← takeWhile isLiteralChar
  char '\''
  pure (String.ofList body)

/-- Takes one or two quotes that do not end a string of several lines. -/
def innerQuotes (quote : Char) : Reader (List Char) := do
  let quotes ← takeSome (· == quote)
  if quotes.length ≤ 2 then pure quotes else failure

/-- Takes the three quotes that end a string of several lines, after up to two
that belong to it. -/
def closingQuotes (quote : Char) : Reader (List Char) := do
  let quotes ← takeSome (· == quote)
  if 3 ≤ quotes.length ∧ quotes.length ≤ 5 then pure (quotes.drop 3) else failure

/-- Takes a backslash at the end of a line, with all blanks and line ends
after it. -/
def lineContinuation : Reader (List Char) := do
  char '\\'
  space
  lineEnd
  let _ ← many ((do let _ ← takeSome isSpace) <|> lineEnd)
  pure []

/-- Takes a string of several lines.  A line end right after the opening
quotes does not belong to it. -/
def longString (quote : Char) (part : Reader (List Char)) : Reader String := do
  chars [quote, quote, quote]
  let _ ← optional lineEnd
  let body ← many (part <|> innerQuotes quote <|> (do lineEnd; pure ['\n']))
  let last ← closingQuotes quote
  pure (String.ofList (body.flatten ++ last))

def string : Reader String :=
  longString '"' (takeSome isBasicChar <|> lineContinuation <|> (do return [← escape])) <|>
    longString '\'' (takeSome isLiteralChar) <|> basicString <|> literalString

/-! ## Keys -/

/-- Tells whether a character may stand in a key without quotes. -/
def isBareKeyChar (c : Char) : Bool :=
  c.isAlphanum || c == '-' || c == '_'

def simpleKey : Reader String :=
  basicString <|> literalString <|> (do return String.ofList (← takeSome isBareKeyChar))

/-- The number of nested values, and of parts of a key, from which on a
document is refused. -/
def depthLimit : Nat := 80

/-- Takes a key: the path that leads to it, and its last part. -/
def key : Reader (List String × String) := do
  let parts ← separated (do space; let part ← simpleKey; space; pure part) (char '.')
  if depthLimit ≤ parts.length then failure
  else
    match parts.reverse with
    | [] => failure
    | last :: path => pure (path.reverse, last)

/-! ## Numbers -/

/-- Takes digits of a class, with single underscores between them allowed. -/
def digits (isMember : Char → Bool) : Reader (List Char) := do
  let first ← satisfy isMember
  let more ← many (do let _ ← optional (char '_'); satisfy isMember)
  pure (first :: more)

/-- Takes a sign, and tells whether it is a minus. -/
def sign : Reader Bool := do
  match ← optional (satisfy fun c => c == '+' || c == '-') with
  | some c => pure (c == '-')
  | none => pure false

/-- Takes the digits of a decimal integer: no zero stands in front. -/
def decimalDigits : Reader (List Char) := do
  let all ← digits Char.isDigit
  if all.head? = some '0' ∧ all ≠ ['0'] then failure else pure all

/-- The integers that a document can hold. -/
def integerOf (negative : Bool) (magnitude : Nat) : Option Int :=
  if negative then if magnitude ≤ Nat.pow 2 63 then some (-magnitude) else none
  else if magnitude < Nat.pow 2 63 then some magnitude
  else none

/-- Takes an integer in a base that a letter after a zero announces. -/
def prefixedInteger : Reader Int := do
  char '0'
  let (base, isMember) ← match ← satisfy fun _ => true with
    | 'x' => pure (16, isHexDigit)
    | 'o' => pure (8, fun c => '0' ≤ c && c ≤ '7')
    | 'b' => pure (2, fun c => c == '0' || c == '1')
    | _ => failure
  match integerOf false (numberOf base (← digits isMember)) with
  | some number => pure number
  | none => failure

def decimalInteger : Reader Int := do
  let negative ← sign
  match integerOf negative (numberOf 10 (← decimalDigits)) with
  | some number => pure number
  | none => failure

def exponent : Reader Int := do
  let _ ← satisfy fun c => c == 'e' || c == 'E'
  let negative ← sign
  let magnitude := numberOf 10 (← digits Char.isDigit)
  pure (if negative then -magnitude else magnitude)

def fraction : Reader (List Char) := do
  char '.'
  digits Char.isDigit

/-- Tells whether `mantissa * 10 ^ exponent` is beyond the greatest finite
number of double precision, that is, rounds up to `2 ^ 1024`. -/
def isTooLarge (mantissa : Nat) (exponent : Int) : Bool :=
  let limit := Nat.pow 2 1024 - Nat.pow 2 970
  let size := (Nat.toDigits 10 mantissa).length + exponent
  if mantissa = 0 ∨ size < 300 then false
  else if 310 < size then true
  else if 0 ≤ exponent then limit ≤ mantissa * Nat.pow 10 exponent.toNat
  else limit * Nat.pow 10 (-exponent).toNat ≤ mantissa

/-- Takes a number with a fraction or an exponent.  A positive number must
not be too large; a negative one may. -/
def decimalFloat : Reader Unit := do
  let negative ← sign
  let whole ← decimalDigits
  let (places, power) ←
    (do let power ← exponent; pure ([], power)) <|>
      (do
        let places ← fraction
        let power ← optional exponent
        pure (places, power.getD 0))
  if !negative && isTooLarge (numberOf 10 (whole ++ places)) (power - places.length) then
    failure

/-- Takes a number that is not finite. -/
def specialFloat : Reader Unit := do
  let _ ← sign
  word "inf" <|> word "nan"

/-! ## Dates and times -/

/-- Takes a number of `count` digits that lies in a range. -/
def numberIn (count lo hi : Nat) : Reader Nat := do
  let number := numberOf 10 (← exactly count Char.isDigit)
  if lo ≤ number ∧ number ≤ hi then pure number else failure

def daysIn (year month : Nat) : Nat :=
  if month = 2 then
    if year % 4 = 0 ∧ (year % 100 ≠ 0 ∨ year % 400 = 0) then 29 else 28
  else if month = 4 ∨ month = 6 ∨ month = 9 ∨ month = 11 then 30
  else 31

def date : Reader Unit := do
  let year ← numberIn 4 0 9999
  char '-'
  let month ← numberIn 2 1 12
  char '-'
  let _ ← numberIn 2 1 (daysIn year month)

def timeOfDay : Reader Unit := do
  let _ ← numberIn 2 0 23
  char ':'
  let _ ← numberIn 2 0 59
  char ':'
  let _ ← numberIn 2 0 60
  let _ ← optional (do char '.'; takeSome Char.isDigit)

/-- Takes the offset of a time from universal time. -/
def offset : Reader Unit :=
  (do let _ ← satisfy fun c => c == 'Z' || c == 'z') <|>
    (do
      let _ ← satisfy fun c => c == '+' || c == '-'
      let _ ← numberIn 2 0 23
      char ':'
      let _ ← numberIn 2 0 59)

def datetime : Reader Unit :=
  (do
    date
    let _ ← optional (do
      let _ ← satisfy fun c => c == 'T' || c == 't' || c == ' '
      timeOfDay
      optional offset)) <|>
    timeOfDay

/-- Takes a plain value. -/
def scalar : Reader Value :=
  (do return .text (← string)) <|>
    (do datetime; return .datetime) <|>
    (do decimalFloat; return .float) <|>
    (do specialFloat; return .float) <|>
    (do return .integer (← prefixedInteger)) <|>
    (do return .integer (← decimalInteger)) <|>
    (do word "true"; return .boolean true) <|>
    (do word "false"; return .boolean false)

end LineStore.Toml
