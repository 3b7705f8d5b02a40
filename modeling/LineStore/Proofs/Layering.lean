import LineStore.Proofs.InputLines
import LineStore.Settings.File

/-!
# Settings from several layers

Each setting is taken from the command line, else from the settings file, else
from the defaults, whatever the other settings are.  Only the result is checked.

* `Tables.layer` is what a file gives, in whichever of its tables.
* `resolve_eq` takes all six settings from their first layer.
* `Problem.Afflicts` is what the server cannot run with.  `check_eq` finds the
  first such problem, and `Problem.afflicts_resolve_iff` the layer that it comes
  from.
* The main result follows the settings from the command line to the check.  It
  holds for any way to find the tables in the text of a file.
-/

namespace LineStore.Settings

/-! ## The first layer that gives a setting -/

/-- The settings that a file gives: those that stand in one of its tables, if the
table is there. -/
def Tables.layer (tables : Tables) : Layer :=
  { host? := tables.server?.bind ServerTable.host?
    port? := tables.server?.bind ServerTable.port?
    workers? := tables.server?.bind ServerTable.workers?
    maxLine? := tables.server?.bind ServerTable.maxLine?
    shutdownTimeout? := tables.server?.bind ServerTable.shutdownTimeout?
    logLevel? := tables.logging?.bind LoggingTable.level? }

/-- A table that is not there is as good as one that leaves all its settings
open. -/
theorem Tables.settings_eq (tables : Tables) : tables.settings = default.override tables.layer := by
  rcases tables with ⟨server?, logging?⟩
  cases server? <;> cases logging? <;>
    simp [settings, layer, override, withServer, withLogging, default]

theorem resolve_eq (commandLine : Layer) (file : Tables) :
    resolve commandLine file =
      { host := (commandLine.host?.or file.layer.host?).getD "127.0.0.1"
        port := (commandLine.port?.or file.layer.port?).getD 8080
        workers? := commandLine.workers?.or file.layer.workers?
        maxLine := (commandLine.maxLine?.or file.layer.maxLine?).getD 65536
        shutdownTimeout := (commandLine.shutdownTimeout?.or file.layer.shutdownTimeout?).getD 10
        logLevel := (commandLine.logLevel?.or file.layer.logLevel?).getD "info" } := by
  simp only [resolve, Tables.settings_eq, override, Option.getD_or, default, defaultHost,
    defaultPort, defaultTimeout, defaultLogLevel, Connection.defaultMaxLine, Option.or_none]

/-! ## Problems -/

namespace Problem

/-- The server cannot run with these settings. -/
def Afflicts (settings : Settings) : Problem → Prop
  | blankHost => Text.AllBlank settings.host.toList
  | noWorkers => settings.workers? = some 0
  | noLineLength => settings.maxLine = 0

instance (settings : Settings) : DecidablePred (Afflicts settings) := fun problem =>
  match problem with
  | blankHost => inferInstanceAs (Decidable (Text.AllBlank settings.host.toList))
  | noWorkers => inferInstanceAs (Decidable (settings.workers? = some 0))
  | noLineLength => inferInstanceAs (Decidable (settings.maxLine = 0))

/-- A layer gives the setting, and the server cannot run with what it gives. -/
def Spoils (layer : Layer) : Problem → Prop
  | blankHost => ∃ host ∈ layer.host?, Text.AllBlank host.toList
  | noWorkers => layer.workers? = some 0
  | noLineLength => layer.maxLine? = some 0

/-- A layer does not give the setting. -/
def Spares (layer : Layer) : Problem → Prop
  | blankHost => layer.host? = none
  | noWorkers => layer.workers? = none
  | noLineLength => layer.maxLine? = none

/-- All problems, in the order in which they are looked for. -/
def all : List Problem := [blankHost, noWorkers, noLineLength]

theorem check_eq (settings : Settings) :
    settings.check =
      match all.find? fun problem => problem.Afflicts settings with
      | some problem => .error problem
      | none => .ok () := by
  have htrim : Text.trim settings.host.toList = [] ↔ blankHost.Afflicts settings :=
    Text.trim_eq_nil_iff
  unfold check
  by_cases hhost : blankHost.Afflicts settings
  · rw [if_pos (htrim.mpr hhost)]
    simp [all, hhost]
  rw [if_neg (mt htrim.mp hhost)]
  by_cases hworkers : noWorkers.Afflicts settings
  · rw [if_pos (show settings.workers? = some 0 from hworkers)]
    simp [all, hhost, hworkers]
  rw [if_neg (show ¬ settings.workers? = some 0 from hworkers)]
  by_cases hline : noLineLength.Afflicts settings
  · rw [if_pos (show settings.maxLine = 0 from hline)]
    simp [all, hhost, hworkers, hline]
  · rw [if_neg (show ¬ settings.maxLine = 0 from hline)]
    simp [all, hhost, hworkers, hline]

theorem holds_getD_or_iff {α : Type} {P : α → Prop} {first second : Option α} {given : α}
    (h : ¬ P given) :
    P ((first.or second).getD given) ↔
      (∃ x ∈ first, P x) ∨ first = none ∧ ∃ x ∈ second, P x := by
  cases first with
  | some x => simp
  | none => cases second <;> simp [h]

/-- What is wrong with a setting comes from the first layer that gives it, and never
from the defaults. -/
theorem afflicts_resolve_iff (problem : Problem) (commandLine : Layer) (file : Tables) :
    problem.Afflicts (resolve commandLine file) ↔
      problem.Spoils commandLine ∨ problem.Spares commandLine ∧ problem.Spoils file.layer := by
  rw [resolve_eq]
  cases problem with
  | blankHost =>
    exact @holds_getD_or_iff _ (fun host : String => Text.AllBlank host.toList) _ _ _ (by decide)
  | noWorkers => exact Option.or_eq_some_iff
  | noLineLength =>
    have hzero := @holds_getD_or_iff _ (fun size : Nat => size = 0) commandLine.maxLine?
      file.layer.maxLine? 65536 (by decide)
    simpa [Afflicts, Spoils, Spares] using hzero

end Problem

/-! ## The main result -/

variable {parse? : List Char → Option Tables} {read : String → Except IOFault Bytes}
  {request : Request} {path : String}

theorem loadWith_of_file (h : request.file? = some path) :
    loadWith parse? read request =
      (tablesOfFile parse? path (read path)).bind (settle request.layer) := by
  rcases request with ⟨file?, layer⟩
  have hfile : file? = some path := h
  subst hfile
  rfl

theorem tablesOfFile_of_not_text {bytes : Bytes} (h : ∀ text, Utf8.encode text ≠ bytes) :
    tablesOfFile parse? path (.ok bytes) = .error (.unreadable path .notText) := by
  rcases Utf8.exists_decode_eq_error_iff.mpr h with ⟨fault, hfault⟩
  simp only [tablesOfFile, hfault]

theorem tablesOfFile_encode (parse? : List Char → Option Tables) (path : String)
    (text : List Char) :
    tablesOfFile parse? path (.ok (Utf8.encode text)) =
      match parse? text with
      | none => .error (.malformed path)
      | some tables => .ok tables := by
  cases htables : parse? text with
  | none => simp only [tablesOfFile, Utf8.decode_encode, htables]
  | some tables => simp only [tablesOfFile, Utf8.decode_encode, htables]

theorem settle_eq (commandLine : Layer) (file : Tables) :
    settle commandLine file =
      match Problem.all.find? fun problem => problem.Afflicts (resolve commandLine file) with
      | some problem => .error (.invalid problem)
      | none => .ok (resolve commandLine file) := by
  unfold settle
  dsimp only
  rw [Problem.check_eq]
  cases Problem.all.find? fun problem => problem.Afflicts (resolve commandLine file) <;> rfl

theorem Problem.find?_eq_none_iff {settings : Settings} :
    (all.find? fun problem => problem.Afflicts settings) = none ↔
      ¬ Text.AllBlank settings.host.toList ∧ settings.workers? ≠ some 0 ∧ settings.maxLine ≠ 0 := by
  rw [List.find?_eq_none]
  simp only [all, List.mem_cons, List.not_mem_nil, or_false, forall_eq_or_imp, forall_eq,
    decide_eq_true_eq]
  rfl

/-- The settings of a server, from what its command line says and from the file that
the command line names.

* A file that cannot be read, or not as text, or in whose text no tables are found,
  is reported at once.
* Otherwise every setting is taken from the command line, else from the file, else
  from the defaults.  The file has a setting if the table is there and has it.
* The result is these settings, or the first thing that is wrong with them.
* What is wrong with them comes from the command line, or from the file where the
  command line says nothing. -/
theorem load_takes_first (parse? : List Char → Option Tables)
    (read : String → Except IOFault Bytes) (request : Request) :
    (∀ path, request.file? = some path →
      (∀ fault, read path = .error fault →
        loadWith parse? read request = .error (.unreadable path fault)) ∧
      (∀ bytes, read path = .ok bytes → (∀ text, Utf8.encode text ≠ bytes) →
        loadWith parse? read request = .error (.unreadable path .notText)) ∧
      (∀ text, read path = .ok (Utf8.encode text) → parse? text = none →
        loadWith parse? read request = .error (.malformed path))) ∧
    ∀ file : Tables,
      (request.file? = none ∧ file = .empty ∨
        ∃ path text, request.file? = some path ∧ read path = .ok (Utf8.encode text) ∧
          parse? text = some file) →
      let commandLine := request.layer
      let given := file.layer
      let settings : Settings :=
        { host := (commandLine.host?.or given.host?).getD "127.0.0.1"
          port := (commandLine.port?.or given.port?).getD 8080
          workers? := commandLine.workers?.or given.workers?
          maxLine := (commandLine.maxLine?.or given.maxLine?).getD 65536
          shutdownTimeout := (commandLine.shutdownTimeout?.or given.shutdownTimeout?).getD 10
          logLevel := (commandLine.logLevel?.or given.logLevel?).getD "info" }
      (loadWith parse? read request = .ok settings ↔
        ¬ Text.AllBlank settings.host.toList ∧ settings.workers? ≠ some 0 ∧
          settings.maxLine ≠ 0) ∧
      loadWith parse? read request =
        (match Problem.all.find? fun problem => problem.Afflicts settings with
        | some problem => .error (.invalid problem)
        | none => .ok settings) ∧
      ∀ problem : Problem, problem.Afflicts settings ↔
        problem.Spoils commandLine ∨ problem.Spares commandLine ∧ problem.Spoils given := by
  constructor
  · intro path hfile
    refine ⟨?_, ?_, ?_⟩
    · intro fault hread
      rw [loadWith_of_file hfile, hread]
      rfl
    · intro bytes hread hbytes
      rw [loadWith_of_file hfile, hread, tablesOfFile_of_not_text hbytes]
      rfl
    · intro text hread htext
      rw [loadWith_of_file hfile, hread, tablesOfFile_encode, htext]
      rfl
  · intro file hfound commandLine given settings
    have hsettings : resolve commandLine file = settings := resolve_eq commandLine file
    have hload : loadWith parse? read request = settle commandLine file := by
      rcases hfound with ⟨hnone, rfl⟩ | ⟨path, text, hfile, hread, htext⟩
      · unfold loadWith
        rw [hnone]
        rfl
      · rw [loadWith_of_file hfile, hread, tablesOfFile_encode, htext]
        rfl
    rw [hload, settle_eq, hsettings]
    refine ⟨?_, rfl, ?_⟩
    · rw [← Problem.find?_eq_none_iff]
      cases Problem.all.find? fun problem => problem.Afflicts settings <;> simp
    · intro problem
      rw [← hsettings]
      exact problem.afflicts_resolve_iff commandLine file

/-- A file with two unusable settings, read by the program.  The command line gives
both in their place, or only one of them, or it gives a third one that the file has
right. -/
theorem load_takes_first_overridden :
    let text := "workers = 2\n[server]\nworkers = 0\nhost = \"\\t\"\nmax_line_length = 9\n"
    let read := fun _ : String => (.ok (Utf8.ofString text) : Except IOFault Bytes)
    let asks (host? : Option String) (workers? maxLine? : Option Nat) : Request :=
      ⟨some "server.toml", ⟨host?, none, workers?, maxLine?, none, none⟩⟩
    load read (asks (some "::1") (some 4) none) = .ok ⟨"::1", 8080, some 4, 9, 10, "info"⟩ ∧
      load read (asks (some "::1") none none) = .error (.invalid .noWorkers) ∧
      load read (asks (some "::1") (some 4) (some 0)) = .error (.invalid .noLineLength) := by
  intro text read asks
  let file : Tables := ⟨some ⟨some "\t", none, some 0, some 9, none⟩, none⟩
  have hfound : ∃ path chars, some "server.toml" = some path ∧
      read path = .ok (Utf8.encode chars) ∧ Tables.ofText? chars = some file :=
    ⟨"server.toml", text.toList, rfl, rfl, by decide +kernel⟩
  have hfirst (host? : Option String) (workers? maxLine? : Option Nat) :=
    ((load_takes_first Tables.ofText? read (asks host? workers? maxLine?)).2 file
      (.inr hfound)).2.1
  exact ⟨(hfirst _ _ _).trans (by decide +kernel), (hfirst _ _ _).trans (by decide +kernel),
    (hfirst _ _ _).trans (by decide +kernel)⟩

end LineStore.Settings
