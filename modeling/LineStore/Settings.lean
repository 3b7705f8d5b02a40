import LineStore.Connection
import LineStore.Text.Blank

/-!
# Settings

The server's settings come in layers: the command line, a settings file, and
the defaults.  A layer gives some of the settings, and each setting is taken
from the first layer that gives it.

* `Settings.Layer` is what a command line gives, and `Settings.Tables` what a
  file gives.
* `Settings.resolve` puts the layers together.
* `Settings.check` finds the first thing that the server could not run with.
-/

namespace LineStore

/-- The settings of a server. -/
structure Settings where
  host : String
  port : Nat
  /-- The number of worker threads, if it is fixed. -/
  workers? : Option Nat
  /-- The longest request line accepted, in bytes. -/
  maxLine : Nat
  /-- The seconds to wait for open connections on shutdown. -/
  shutdownTimeout : Nat
  logLevel : String
  deriving DecidableEq, Repr

/-- Settings of which any may be left open. -/
structure Settings.Layer where
  host? : Option String
  port? : Option Nat
  workers? : Option Nat
  maxLine? : Option Nat
  shutdownTimeout? : Option Nat
  logLevel? : Option String
  deriving DecidableEq, Repr

namespace Settings

/-- The settings that the table `server` of a settings file gives. -/
structure ServerTable where
  host? : Option String
  port? : Option Nat
  workers? : Option Nat
  maxLine? : Option Nat
  shutdownTimeout? : Option Nat
  deriving DecidableEq, Repr

/-- The settings that the table `logging` of a settings file gives. -/
structure LoggingTable where
  level? : Option String
  deriving DecidableEq, Repr

/-- What a settings file gives.  Neither of its tables need be there. -/
structure Tables where
  server? : Option ServerTable
  logging? : Option LoggingTable
  deriving DecidableEq, Repr

def Layer.empty : Layer := ⟨none, none, none, none, none, none⟩

def Layer.maxPort : Nat := UInt16.size - 1

def Layer.maxNumber : Nat := UInt64.size - 1

def Tables.empty : Tables := ⟨none, none⟩

/-- The host bound to, or called, unless something else is said. -/
def defaultHost : String := "127.0.0.1"

/-- The port listened on, or called, unless something else is said. -/
def defaultPort : Nat := 8080

/-- The seconds to wait for open connections unless something else is said. -/
def defaultTimeout : Nat := 10

def defaultLogLevel : String := "info"

def default : Settings :=
  { host := defaultHost
    port := defaultPort
    workers? := none
    maxLine := Connection.defaultMaxLine
    shutdownTimeout := defaultTimeout
    logLevel := defaultLogLevel }

/-- These settings, with those that a layer gives instead. -/
def override (settings : Settings) (layer : Layer) : Settings :=
  { host := layer.host?.getD settings.host
    port := layer.port?.getD settings.port
    workers? := layer.workers?.or settings.workers?
    maxLine := layer.maxLine?.getD settings.maxLine
    shutdownTimeout := layer.shutdownTimeout?.getD settings.shutdownTimeout
    logLevel := layer.logLevel?.getD settings.logLevel }

/-- These settings, with those of a table `server` instead.  A setting that the
table leaves open is the default. -/
def withServer (settings : Settings) (table : ServerTable) : Settings :=
  { settings with
    host := table.host?.getD defaultHost
    port := table.port?.getD defaultPort
    workers? := table.workers?
    maxLine := table.maxLine?.getD Connection.defaultMaxLine
    shutdownTimeout := table.shutdownTimeout?.getD defaultTimeout }

/-- These settings, with those of a table `logging` instead. -/
def withLogging (settings : Settings) (table : LoggingTable) : Settings :=
  { settings with logLevel := table.level?.getD defaultLogLevel }

/-- The settings of a file.  Where a table is not there, all its settings are the
defaults. -/
def Tables.settings (tables : Tables) : Settings :=
  let settings := tables.server?.elim default default.withServer
  tables.logging?.elim settings settings.withLogging

/-- The settings that the command line and the settings file give together. -/
def resolve (commandLine : Layer) (file : Tables) : Settings :=
  file.settings.override commandLine

/-- What a server cannot run with. -/
inductive Problem
  | blankHost
  | noWorkers
  | noLineLength
  deriving DecidableEq, Repr

def Problem.message : Problem → String
  | blankHost => "host must not be empty"
  | noWorkers => "workers must be at least 1"
  | noLineLength => "max_line_length must be at least 1"

/-- The first problem that settings have. -/
def check (settings : Settings) : Except Problem Unit :=
  if Text.trim settings.host.toList = [] then .error .blankHost
  else if settings.workers? = some 0 then .error .noWorkers
  else if settings.maxLine = 0 then .error .noLineLength
  else .ok ()

def address (settings : Settings) : String :=
  s!"{settings.host}:{settings.port}"

end Settings

/-- Why there are no settings to run with. -/
inductive SettingsError
  | unreadable (path : String) (fault : IOFault)
  /-- The settings file is not a document of settings. -/
  | malformed (path : String)
  | invalid (problem : Settings.Problem)
  deriving DecidableEq, Repr

namespace SettingsError

def invalidMessage (problem : String) : String :=
  s!"invalid configuration: {problem}"

def message : SettingsError → String
  | unreadable path fault => s!"failed to read config file '{path}': {fault.text}"
  | malformed path => s!"failed to parse config file '{path}'"
  | invalid problem => invalidMessage problem.message

end SettingsError

end LineStore
