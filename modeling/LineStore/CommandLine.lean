import LineStore.Numeral

/-!
# Command lines

A program describes its switches, and whether it takes operands.  A switch has
a long name after two hyphens, perhaps a letter after one hyphen, and one
value: the next argument, or the rest of the same argument, with or without an
equals sign.  Every program has the switches `--help` and `--version`.

`Program.parse` reads the arguments from the left.  The value of a switch that
is an argument of its own is judged only when the next switch or operand comes
up, or at the end.

Where operands may start with a hyphen, so may arguments that are no switch;
and everything after the first operand is an operand too.
-/

namespace LineStore.CommandLine

/-- What the value of a switch must be. -/
inductive ValueKind
  | text
  | path
  /-- A number of at most `max`, perhaps with a minus sign before zero. -/
  | number (max : Nat) (signed : Bool)
  deriving DecidableEq, Repr

/-- A switch of a program. -/
structure Switch where
  letter? : Option Char
  name : String
  kind : ValueKind
  help : String
  /-- The value without the switch, where the help shows one. -/
  default? : Option String
  deriving DecidableEq, Repr

/-- The arguments of a program that are no switches. -/
structure Operands where
  label : String
  help : String
  deriving DecidableEq, Repr

/-- A program, as its command line knows it. -/
structure Program where
  name : String
  version : String
  about : String
  switches : List Switch
  /-- The operands, if the program takes any.  They may start with a hyphen. -/
  operands? : Option Operands
  deriving DecidableEq, Repr

/-- A value that a switch was given. -/
inductive Argument
  | text (text : String)
  | number (number : Nat)
  deriving DecidableEq, Repr

/-- What is wrong with a command line. -/
inductive UsageError
  /-- The switch has no value, or an empty one where it must not be empty. -/
  | missingValue (switch : String)
  | badValue (switch value : String)
  /-- The switch was given before. -/
  | repeatedSwitch (switch : String)
  | unneededValue (switch : String)
  /-- The argument is no switch, and no operand is taken. -/
  | unknownArgument (argument : String)
  deriving DecidableEq, Repr

/-- Why a program does not start its work. -/
inductive Stop
  | help
  | version
  | misuse (error : UsageError)
  deriving DecidableEq, Repr

/-- What a command line says. -/
structure Parsed where
  /-- The values of the switches given, by long name. -/
  values : List (String × Argument)
  operands : List String
  deriving DecidableEq, Repr

namespace Parsed

def text? (parsed : Parsed) (name : String) : Option String :=
  match parsed.values.lookup name with
  | some (.text text) => some text
  | _ => none

def number? (parsed : Parsed) (name : String) : Option Nat :=
  match parsed.values.lookup name with
  | some (.number number) => some number
  | _ => none

end Parsed

def Switch.read (switch : Switch) (value : String) : Except UsageError Argument :=
  match switch.kind with
  | .text => .ok (.text value)
  | .path => if value.isEmpty then .error (.missingValue switch.name) else .ok (.text value)
  | .number max signed =>
    match Numeral.read? max signed value.toList with
    | some number => .ok (.number number)
    | none => .error (.badValue switch.name value)

/-- A switch as written in an argument. -/
inductive Named
  | help
  | version
  | switch (switch : Switch)
  deriving DecidableEq, Repr

namespace Program

def ofName? (program : Program) (name : String) : Option Named :=
  if name = "help" then some .help
  else if name = "version" then some .version
  else (program.switches.find? fun switch => switch.name = name).map .switch

def ofLetter? (program : Program) (letter : Char) : Option Named :=
  if letter = 'h' then some .help
  else if letter = 'V' then some .version
  else (program.switches.find? fun switch => switch.letter? = some letter).map .switch

end Program

/-- The form of an argument. -/
inductive Form
  /-- Two hyphens alone: only operands follow. -/
  | separator
  /-- Two hyphens and a long name, perhaps with a value after an equals
  sign. -/
  | long (name : String) (value? : Option String)
  | short (first : Char) (rest : List Char)
  | plain
  deriving DecidableEq, Repr

def Form.of (argument : String) : Form :=
  match argument.toList with
  | ['-', '-'] => .separator
  | '-' :: '-' :: rest =>
    let name := String.ofList (rest.takeWhile (· ≠ '='))
    match rest.dropWhile (· ≠ '=') with
    | [] => .long name none
    | _ :: value => .long name (some (String.ofList value))
  | '-' :: first :: rest => .short first rest
  | _ => .plain

/-- The progress through a command line.  `pending?` is the switch named last,
if its value is an argument of its own, and that value once it is there. -/
structure Progress where
  values : List (String × Argument)
  pending? : Option (Switch × Option String)
  deriving DecidableEq, Repr

namespace Progress

def store (progress : Progress) (switch : Switch) (value : String) : Except UsageError Progress :=
  if (progress.values.lookup switch.name).isSome then .error (.repeatedSwitch switch.name)
  else do
    let argument ← switch.read value
    .ok { progress with values := progress.values ++ [(switch.name, argument)] }

/-- Records the value of the pending switch. -/
def flush (progress : Progress) : Except UsageError Progress :=
  match progress.pending? with
  | none => .ok progress
  | some (switch, none) => .error (.missingValue switch.name)
  | some (switch, some value) => { progress with pending? := none }.store switch value

/-- Names a switch, with a value if it is part of the same argument. -/
def name (progress : Progress) (switch : Switch) (value? : Option String) :
    Except UsageError Progress := do
  let progress ← progress.flush
  match value? with
  | some value => progress.store switch value
  | none => .ok { progress with pending? := some (switch, none) }

end Progress

namespace Program

def orMisuse {α : Type} : Except UsageError α → Except Stop α
  | .ok value => .ok value
  | .error error => .error (.misuse error)

def finish (progress : Progress) (operands : List String) : Except Stop Parsed := do
  let progress ← orMisuse progress.flush
  .ok ⟨progress.values, operands⟩

/-- Reads arguments of which none can be a switch. -/
def parseOperands (program : Program) (progress : Progress) :
    List String → Except Stop Parsed
  | [] => finish progress []
  | first :: rest =>
    if program.operands?.isSome then finish progress (first :: rest)
    else .error (.misuse (.unknownArgument first))

/-- What an argument is to be taken for. -/
inductive Meaning
  /-- Only operands follow. -/
  | separator
  | named (switch : Named) (value? : Option String)
  /-- The value of the pending switch, or the first operand. -/
  | word
  | unknown
  deriving DecidableEq, Repr

/-- The value that follows a letter in the same argument. -/
def attachedValue : List Char → Option String
  | [] => none
  | '=' :: value => some (String.ofList value)
  | value => some (String.ofList value)

/-- What an argument is to be taken for. -/
def meaning (program : Program) (argument : String) : Meaning :=
  let fallback := if program.operands?.isSome then Meaning.word else .unknown
  match Form.of argument with
  | .separator => .separator
  | .plain => .word
  | .long name value? =>
    match program.ofName? name with
    | some switch => .named switch value?
    | none => fallback
  | .short first rest =>
    if program.operands?.isSome && (first :: rest).any fun c => (program.ofLetter? c).isNone
    then .word
    else
      match program.ofLetter? first with
      | some (.switch switch) => .named (.switch switch) (attachedValue rest)
      | some other => .named other none
      | none => fallback

/-- Reads arguments, given the progress through the earlier ones. -/
def parseFrom (program : Program) (progress : Progress) : List String → Except Stop Parsed
  | [] => finish progress []
  | argument :: rest =>
    match program.meaning argument with
    | .separator => program.parseOperands progress rest
    | .unknown => .error (.misuse (.unknownArgument argument))
    | .named .help (some _) => .error (.misuse (.unneededValue "help"))
    | .named .version (some _) => .error (.misuse (.unneededValue "version"))
    | .named .help none => do
      let _ ← orMisuse progress.flush
      .error .help
    | .named .version none => do
      let _ ← orMisuse progress.flush
      .error .version
    | .named (.switch switch) value? => do
      program.parseFrom (← orMisuse (progress.name switch value?)) rest
    | .word =>
      match progress.pending? with
      | some (switch, none) =>
        program.parseFrom { progress with pending? := some (switch, some argument) } rest
      | _ => program.parseOperands progress (argument :: rest)

/-- Reads the arguments of a program. -/
def parse (program : Program) (arguments : List String) : Except Stop Parsed :=
  program.parseFrom ⟨[], none⟩ arguments

end Program

end LineStore.CommandLine
