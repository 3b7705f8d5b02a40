import LineStore.Command
import LineStore.Text.Blank

/-!
# Request lines

A request line is a verb and its arguments, separated by blanks.  Blanks at
either end do not count, so a carriage return before the newline is harmless.

`Command.ofLine` reads a line; a line that is no request gets one
`RequestError`, and the checks come in the order of its constructors.
-/

namespace LineStore

/-- Why a line is no request. -/
inductive RequestError
  | notUtf8 (fault : Utf8.Fault)
  | emptyLine
  | unknownVerb (word : String)
  /-- The verb is not followed by the number of words it needs. -/
  | wrongArity (verb : Verb) (expected got : Nat)
  deriving DecidableEq, Repr

namespace RequestError

/-- The wording for a line that is not UTF-8, given what is wrong with it. -/
def notUtf8Message (reason : String) : String :=
  s!"invalid UTF-8: {reason}"

def message : RequestError → String
  | notUtf8 fault => notUtf8Message fault.message
  | emptyLine => "empty line"
  | unknownVerb word => s!"unknown command '{word}'"
  | wrongArity verb expected got =>
    s!"wrong number of arguments for '{verb.name}': expected {expected}, got {got}"

end RequestError

namespace Command

/-- The command that a verb and its arguments make, if their number is
right. -/
def ofArguments? {α : Type} : Verb → List α → Option (Command α)
  | .put, [key, value] => some (put key value)
  | .get, [key] => some (get key)
  | .delete, [key] => some (delete key)
  | _, _ => none

/-- The command that the words of a line make. -/
def ofWords : List Text.Word → Except RequestError (Command Text.Word)
  | [] => .error .emptyLine
  | first :: arguments =>
    match Verb.ofWord? first.chars with
    | none => .error (.unknownVerb first.toString)
    | some verb =>
      match ofArguments? verb arguments with
      | some command => .ok command
      | none => .error (.wrongArity verb verb.arity arguments.length)

/-- Reads a request line, given without its newline.  The words of the
command keep their places in the line. -/
def ofLine (line : Bytes) : Except RequestError (Command Text.Word) :=
  match Utf8.decode line with
  | .error fault => .error (.notUtf8 fault)
  | .ok text => ofWords (Text.words text)

end Command

end LineStore
