import LineStore.CommandLine

/-!
# Help texts

The text that `--help` shows: what the program does, how it is called, and a
row for each operand and switch.  The description of a row stands in a column
beside the names.  Where one would leave too little room there, all of them
stand on lines of their own.
-/

namespace LineStore.CommandLine

def lineWidth : Nat := 100

/-- A row of a help text.  `lead` comes before the part of the names whose
width counts. -/
structure Row where
  lead : String
  names : String
  text : String
  deriving DecidableEq, Repr

/-- The name of the value of a switch, as the help shows it. -/
def Switch.valueLabel (switch : Switch) : String :=
  String.ofList (switch.name.toList.map fun c => if c = '-' then '_' else c.toUpper)

def letterLead : Option Char → String
  | some letter => s!"-{letter}, "
  | none => "    "

def Switch.row (switch : Switch) : Row :=
  { lead := letterLead switch.letter?
    names := s!"--{switch.name} <{switch.valueLabel}>"
    text :=
      match switch.default? with
      | some value => s!"{switch.help} [default: {value}]"
      | none => switch.help }

def commonRows : List Row :=
  [⟨letterLead (some 'h'), "--help", "Print help"⟩,
    ⟨letterLead (some 'V'), "--version", "Print version"⟩]

def Operands.row (operands : Operands) : Row :=
  ⟨"", s!"[{operands.label}]...", operands.help⟩

/-- The width of the widest names among some rows. -/
def namesWidth (rows : List Row) : Nat :=
  rows.foldl (fun width row => max width row.names.length) 2

/-- Tells whether the descriptions of some rows stand on lines of their own:
the names take more than two fifths of the line, and the rest is too short for
some description. -/
def isStacked (rows : List Row) : Bool :=
  let taken := namesWidth rows + 12
  taken ≤ lineWidth && 2 * lineWidth < 5 * taken &&
    rows.any fun row => lineWidth - taken < row.text.length

def Row.render (row : Row) (isStacked : Bool) (width : Nat) : String :=
  if isStacked then s!"  {row.lead}{row.names}\n          {row.text}\n"
  else
    let padding := "".pushn ' ' (width + 2 - row.names.length)
    s!"  {row.lead}{row.names}{padding}{row.text}\n"

def renderGroup (title : String) (rows : List Row) : String :=
  s!"{title}:\n" ++
    String.join (rows.map fun row => row.render (isStacked rows) (namesWidth rows))

def Program.helpText (program : Program) : String :=
  let operandsLabel := match program.operands? with
    | some operands => s!" {operands.row.names}"
    | none => ""
  let operandsGroup := match program.operands? with
    | some operands => renderGroup "Arguments" [operands.row] ++ "\n"
    | none => ""
  s!"{program.about}\n\nUsage: {program.name} [OPTIONS]{operandsLabel}\n\n{operandsGroup}" ++
    renderGroup "Options" (program.switches.map Switch.row ++ commonRows)

def Program.versionText (program : Program) : String :=
  s!"{program.name} {program.version}\n"

end LineStore.CommandLine
