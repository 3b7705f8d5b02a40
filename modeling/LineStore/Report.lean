/-!
# Error reports

What a program prints when it gives up: an error with its causes, the outermost
first.  Several causes are numbered.  Further lines of a cause are indented as
far as the first.
-/

namespace LineStore

/-- An error and its causes, the outermost first. -/
structure Report where
  message : String
  causes : List String
  deriving DecidableEq, Repr

namespace Report

def indented (margin text : String) : String :=
  s!"\n{margin}".intercalate (text.splitOn "\n")

def numbered (cause : String) (number : Nat) : String :=
  let digits := toString number
  let padding := "".pushn ' ' (5 - digits.length)
  s!"\n{padding}{digits}: " ++ indented "       " cause

def renderCauses : List String → String
  | [] => ""
  | [cause] => "\n\nCaused by:\n    " ++ indented "    " cause
  | causes =>
    "\n\nCaused by:" ++ String.join (causes.zipIdx.map fun (cause, i) => numbered cause i)

def render (report : Report) : String :=
  s!"Error: {report.message}{renderCauses report.causes}\n"

end Report

/-- What a program that has ended leaves behind. -/
structure ProgramResult where
  exit : Nat
  stdout : String
  stderr : String
  deriving DecidableEq, Repr

end LineStore
