/-!
# Decimal numerals

Numbers given as text, such as the value of a command-line option.  A numeral
is a row of ASCII digits, with any number of zeros in front; a plus sign may
precede it, and a minus sign where the caller says so.
-/

namespace LineStore.Numeral

/-- The number that a row of ASCII digits stands for. -/
def ofDigits? (digits : List Char) : Option Nat :=
  if digits ≠ [] ∧ digits.all Char.isDigit then
    some (digits.foldl (fun number c => 10 * number + (c.toNat - '0'.toNat)) 0)
  else none

/-- The number that a numeral stands for, if it is at most `max`.  A minus
sign is allowed where `signed` says so, and then only in front of zero. -/
def read? (max : Nat) (signed : Bool) (text : List Char) : Option Nat := do
  let number ←
    match text with
    | '+' :: digits => ofDigits? digits
    | '-' :: digits =>
      if signed ∧ ofDigits? digits = some 0 then some 0 else none
    | digits => ofDigits? digits
  if number ≤ max then some number else none

end LineStore.Numeral
