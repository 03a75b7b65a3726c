import BackendMigration.Command.Call
import BackendMigration.Export.Plan
import BackendMigration.Function.Form
import BackendMigration.Load.Order
import BackendMigration.Migration.Run

/-! Running a command. -/
namespace BackendMigration.Command

/-- What a command finds around it. -/
structure World where
  files : File.Tree
  environment : Environment := []
  /-- The document store, if one can be reached. -/
  store : Option Export.Store := none
  /-- The hook that a file defines. -/
  hook? : ByteArray → Option Export.Hook := fun _ => none
  /-- What comes of arguments of the command-line client of projects. -/
  reply : List Document.Value → Inventory.ClientReply := fun _ => .failed
  /-- The replies to requests. -/
  replies : List Load.Reply := []
  /-- The id of a new report. -/
  id : String
  period : Time.Period

/-- What comes of a command: its exit code, what it prints, the files after it and the commands of
the client that it ran. Nothing is printed on the standard output by a command line that leads to no
run. -/
structure Outcome where
  exit : Nat
  printed : Option String
  files : File.Tree
  commands : List (List Json) := []

def exitOk : Nat := 0

/-- The exit code if some parts failed. -/
def exitFailed : Nat := 1

/-- The exit code if nothing was done. -/
def exitFatal : Nat := 2

/-- Why a command breaks off. -/
inductive Failure where
  | settingsFile (f : File.ContentsFault)
  | settingsText (f : Json.Fault) (text : Text)
  /-- The settings are no object; `assigned` if one of them was to be set. -/
  | settingsShape (assigned : Bool)
  | number (f : Document.IntegerFault)
  | scan (f : File.ContentsFault)
  | migration (f : Migration.Failure)
  | export (f : Export.PlanFailure)
  | load (f : Load.Failure)
  deriving DecidableEq, Repr

/-- Read a settings file; without one there are no settings. -/
def settingsOf (t : File.Tree) (config : Option String) : Except Failure Json :=
  match given? config with
  | none => .ok (.obj [])
  | some path =>
    match t.readTextAt path with
    | .error f => .error (.settingsFile f)
    | .ok text =>
      match Json.read text with
      | .error f => .error (.settingsText f text)
      | .ok v => .ok v

/-- Put settings in front of those of a file. -/
def overlay (settings : Keyed Json) : Json → Except Failure Document.Entries
  | .obj fields =>
    .ok (Document.Value.ofJsonFields (settings.foldl (fun fs (k, v) => Keyed.set k v fs) fields))
  | _ => .error (.settingsShape (!settings.isEmpty))

/-- A JSON value on lines of its own. -/
def printedJson (v : Json) : String := String.ofList (Json.render ⟨some 2, true⟩ v) ++ "\n"

def rule : String := String.ofList (List.replicate 60 '=')

def summaryLine (s : Migration.Summary) : String :=
  "  - " ++ s.name ++ " [" ++ s.kind ++ "] " ++ s.status.name ++
    (if s.needsReview then " (needs review)" else "")

/-- The lines that sum up a migration. -/
def summaryLines (r : Migration.Report) : List String :=
  let source := Document.Value.ofJson r.source
  let title := if r.fatal then "FUNCTION MIGRATION ABORTED" else "FUNCTION MIGRATION COMPLETE"
  ["", rule, title, rule,
    "Source: " ++ (if source.isFalsy then "(none)" else source.spelled),
    "Total: " ++ toString r.total,
    "Migrated: " ++ toString r.migratedCount,
    "Failed: " ++ toString r.failedCount,
    "Skipped: " ++ toString r.skippedCount,
    "Warnings: " ++ toString r.warnings.length,
    "Errors: " ++ toString r.errors.length] ++
  r.units.map summaryLine ++ (given? r.reportPath).toList.map ("Report: " ++ ·)

/-- Migrate functions. -/
def runFunctions (w : World) (data : Document.Entries) : Except Failure Outcome :=
  let order := Migration.Order.ofEntries data
  let setting : Migration.Setting :=
    { conversion := .ofGenerator .standard, reply := w.reply, id := w.id, period := w.period }
  match Migration.run setting order .ordered w.files .never with
  | .error e => .error (.migration e)
  | .ok o =>
    let r := o.state.report
    .ok {
      exit := if r.fatal then exitFatal else if r.failedCount = 0 then exitOk else exitFailed
      printed := some (EdgeFunction.linesText (summaryLines r))
      files := o.state.files
      commands := o.commands.map fun c => (order.program :: c).map (·.shown) }

/-- A command that does nothing. -/
def refused (files : File.Tree) : Outcome := ⟨exitFatal, some "", files, []⟩

/-- The path is one that no file can have. -/
def isNoPath : File.ContentsFault → Bool
  | .file f => f.cause.isImpossible
  | _ => false

/-- Print the functions of a file. -/
def runScan (w : World) (file : String) : Except Failure Outcome :=
  match w.files.readTextAt file with
  | .error f => if isNoPath f then .error (.scan f) else .ok (refused w.files)
  | .ok text =>
    let records := Recognition.scan .standard text file
    .ok ⟨exitOk, some (printedJson (.arr (records.map (·.toJson)))), w.files, []⟩

/-- The failure is one of the order or of a value in it. Others break the command off. -/
def isRefusal : Export.PlanFailure → Bool
  | .invalid _ | .noCredentials _ | .hooks (.notFound _) => true
  | .export (.order _) => true
  | .export (.write (.record .signalingNaN)) => true
  | .export (.write (.record (.excess .digits))) => true
  | .export (.write (.file (.unwritable _))) => true
  | .export (.write (.file (.file f))) => f.cause.isImpossible
  | _ => false

/-- The number cannot be read. Other faults break the command off. -/
def isMisread : Document.IntegerFault → Bool
  | .infinite | .decimalInfinite | .kind => false
  | _ => true

/-- Export a collection. -/
def runExport (w : World) (data : Document.Entries) : Except Failure Outcome :=
  match Export.Plan.ofEntries data w.environment with
  | .error (.mode _) => .ok (refused w.files)
  | .error (.number f) => if isMisread f then .ok (refused w.files) else .error (.number f)
  | .ok plan =>
    match plan.run w.store w.hook? w.period w.files .never with
    | .error f => if isRefusal f then .ok (refused w.files) else .error (.export f)
    | .ok o =>
      match o.result with
      | .error f =>
        if isRefusal (.export f) then .ok (refused o.session.files) else .error (.export (.export f))
      | .ok r => .ok {
          exit := if r.errors.isEmpty then exitOk else exitFailed
          printed := some (printedJson r.toJson)
          files := o.session.files }

/-- The order or its loader is not as it has to be. Other failures break the command off. -/
def isInvalid : Load.Failure → Bool
  | .invalid _ => true
  | .settings e => e != .urlKind
  | _ => false

/-- Load a directory of relation files. Also the requests made. -/
def runLoad (w : World) (data : Document.Entries) :
    Except Failure (Outcome × List Load.Request) :=
  match Load.Order.ofEntries data w.environment with
  | .error f => if isMisread f then .ok (refused w.files, []) else .error (.number f)
  | .ok order =>
    match order.run w.files w.period ⟨w.replies, []⟩ with
    | .error f => if isInvalid f then .ok (refused w.files, []) else .error (.load f)
    | .ok (results, c) =>
      let failed := results.any fun r => r.2.failed != 0 || !r.2.errors.isEmpty
      .ok ({
        exit := if failed then exitFailed else exitOk
        printed := some (printedJson (.obj (results.map fun r => (r.1, r.2.toJson))))
        files := w.files }, c.requests.reverse)

/-- The settings of a command. -/
def settingsFor (w : World) (config : Option String) (settings : Keyed Json) :
    Except Failure Document.Entries := do
  overlay settings (← settingsOf w.files config)

/-- Run a command. -/
def Call.run (w : World) : Call → Except Failure Outcome
  | .functions config settings => do runFunctions w (← settingsFor w config settings)
  | .scan file => runScan w file
  | .export config settings => do runExport w (← settingsFor w config settings)
  | .load config settings => do return (← runLoad w (← settingsFor w config settings)).1

/-- Run a command line. -/
def runLine (w : World) (args : List String) : Except Failure Outcome :=
  match Call.read args with
  | .error .help => .ok ⟨exitOk, none, w.files, []⟩
  | .error .usage => .ok ⟨exitFatal, none, w.files, []⟩
  | .ok call => call.run w

end BackendMigration.Command
