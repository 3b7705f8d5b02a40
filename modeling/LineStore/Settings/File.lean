import LineStore.Settings.Load
import LineStore.Toml.Document

/-!
# The settings file of the program

A settings file is a TOML document with the tables `server` and `logging`.
Names that are not settings are passed over; a setting of the wrong type makes
the whole file unusable.

A table of settings may also be written as an array, with the settings in a
fixed order; those that do not come after the end of the array are left open,
except for the number of workers.  A date in the place of a table names no
setting.

* `Settings.Tables.ofText?` reads such a file.
* `Settings.load` is `Settings.loadWith` for files of this kind.
-/

namespace LineStore.Settings

open Toml

def text? : Value → Option String
  | .text text => some text
  | _ => none

def number? (max : Nat) : Value → Option Nat
  | .integer number =>
    if 0 ≤ number ∧ number ≤ max then some number.toNat else none
  | _ => none

/-- The settings that a table gives to one part of the program: by name, or by
place. -/
inductive Source
  | named (entries : Table)
  | listed (items : List Value)

def Source.of? : Value → Option Source
  | .table _ entries => some (.named entries)
  | .datetime => some (.named [])
  | .array items => some (.listed items)
  | .tables elements => some (.listed (elements.map (.table .header)))
  | _ => none

/-- The value of a setting that has a name and a place. -/
def Source.find? (name : String) (place : Nat) : Source → Option Value
  | .named entries => entries.lookup name
  | .listed items => items[place]?

def Source.read {α : Type} (source : Source) (name : String) (place : Nat)
    (read? : Value → Option α) : Option (Option α) :=
  match source.find? name place with
  | none => some none
  | some value => (read? value).map some

/-- The place of the number of workers in an array of settings. -/
def workersPlace : Nat := 2

/-- Tells whether settings listed by place reach the number of workers, which
an array must not leave out. -/
def Source.hasWorkers : Source → Bool
  | .named _ => true
  | .listed items => workersPlace < items.length

def ServerTable.of? (source : Source) : Option ServerTable := do
  let host? ← source.read "host" 0 text?
  let port? ← source.read "port" 1 (number? Layer.maxPort)
  let workers? ← source.read "workers" workersPlace (number? Layer.maxNumber)
  let maxLine? ← source.read "max_line_length" 3 (number? Layer.maxNumber)
  let shutdownTimeout? ← source.read "shutdown_timeout" 4 (number? Layer.maxNumber)
  if source.hasWorkers then some { host?, port?, workers?, maxLine?, shutdownTimeout? }
  else none

def LoggingTable.of? (source : Source) : Option LoggingTable := do
  some { level? := ← source.read "level" 0 text? }

/-- One table of a document, if the table is there. -/
def table? {α : Type} (document : Table) (name : String) (of? : Source → Option α) :
    Option (Option α) :=
  match document.lookup name with
  | none => some none
  | some value => do some (← of? (← Source.of? value))

def Tables.ofDocument? (document : Table) : Option Tables := do
  some
    { server? := ← table? document "server" ServerTable.of?
      logging? := ← table? document "logging" LoggingTable.of? }

/-- What the text of a settings file gives. -/
def Tables.ofText? (text : List Char) : Option Tables := do
  Tables.ofDocument? (← document? text)

/-- The settings that the program's command line asks for.  `read` reads a file. -/
def load (read : String → Except IOFault Bytes) (request : Request) :
    Except SettingsError Settings :=
  loadWith Tables.ofText? read request

end LineStore.Settings
