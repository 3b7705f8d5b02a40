/-!
# Log entries

A log entry has a level, a message and named fields.

* `Log.Entry.render` is its one-line form.
* `Log.Verbosity` is how much of a log is shown.
-/

namespace LineStore.Log

/-- How much an entry matters, from `trace` up to `error`. -/
inductive Level
  | trace
  | debug
  | info
  | warn
  | error
  deriving DecidableEq, Repr

namespace Level

/-- The place of a level in the order of importance. -/
def rank : Level → Nat
  | trace => 0
  | debug => 1
  | info => 2
  | warn => 3
  | error => 4

def name : Level → String
  | trace => "TRACE"
  | debug => "DEBUG"
  | info => "INFO"
  | warn => "WARN"
  | error => "ERROR"

end Level

/-- One line of a log. -/
structure Entry where
  level : Level
  message : String
  fields : List (String × String)
  deriving DecidableEq, Repr

/-- The line: level and message, then each field as `name=value`. -/
def Entry.render (entry : Entry) : String :=
  " ".intercalate
    (entry.level.name :: entry.message ::
      entry.fields.map fun (name, value) => s!"{name}={value}")

def atLeast (level : Level) (entries : List Entry) : List Entry :=
  entries.filter fun entry => level.rank ≤ entry.level.rank

/-- How much of a log is shown: everything from a level on, or nothing. -/
abbrev Verbosity := Option Level

/-- The names of the verbosities.  Each has a number as well. -/
def Verbosity.names : List (String × Verbosity) :=
  [("OFF", none), ("ERROR", some .error), ("WARN", some .warn), ("INFO", some .info),
    ("DEBUG", some .debug), ("TRACE", some .trace), ("0", none), ("1", some .error),
    ("2", some .warn), ("3", some .info), ("4", some .debug), ("5", some .trace)]

/-- The verbosity with a name, in any case.  Other names show errors. -/
def Verbosity.ofName (name : String) : Verbosity :=
  (names.lookup (name.map Char.toUpper)).getD (some .error)

def Verbosity.shown (verbosity : Verbosity) (entries : List Entry) : List Entry :=
  match verbosity with
  | none => []
  | some level => atLeast level entries

end LineStore.Log
