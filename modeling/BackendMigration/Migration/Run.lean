import BackendMigration.Inventory.Deployed
import BackendMigration.Inventory.Directory
import BackendMigration.Migration.Order
import BackendMigration.Migration.Output
import BackendMigration.Migration.Report

/-! Migrating functions: finding them, making edge functions, writing them and a report. -/
namespace BackendMigration.Migration

/-- How edge functions are made of records and how their manifests are written; either can fail
with a message. -/
structure Conversion where
  make : FunctionRecord → Except String (Option GeneratedUnit)
  write : GeneratedUnit → Except String String := manifestText

/-- The conversion by a generator. -/
def Conversion.ofGenerator (g : Generator) : Conversion :=
  ⟨fun r => (g.generate r).mapError Text.IntegerFault.message, manifestText⟩

/-- A function that could not be made or written. -/
structure FunctionFailure where
  name : String
  kind : TriggerKind
  message : String
  deriving DecidableEq, Repr

def FunctionFailure.toJson (f : FunctionFailure) : Json :=
  .obj [("name", .str f.name), ("trigger_kind", .str f.kind.name), ("error", .str f.message)]

/-- What a migration changes. -/
structure State where
  report : Report
  files : File.Tree
  /-- The functions written. -/
  units : List GeneratedUnit := []
  failures : List FunctionFailure := []

def duplicateWarning (r previous : FunctionRecord) : String :=
  "Duplicate function name " ++ r.name ++ ": " ++ r.sourceFile ++ " replaces " ++
    previous.sourceFile

def unsupportedWarning (r : FunctionRecord) : String :=
  "Unsupported trigger kind " ++ r.kind.name ++ " for " ++ r.name ++ "; skipped"

def cancelledWarning : String := "Migration cancelled"

/-- Add a record to records of different names, in place of the one of its name. -/
def collapseStep (acc : Keyed FunctionRecord × List String) (r : FunctionRecord) :
    Keyed FunctionRecord × List String :=
  (Keyed.set r.name r acc.1,
    match Keyed.get? r.name acc.1 with
    | some previous => acc.2 ++ [duplicateWarning r previous]
    | none => acc.2)

/-- The last record of each name, in the order in which the names first occur, with a warning for
each record that is replaced. -/
def collapse (records : List FunctionRecord) : List FunctionRecord × List String :=
  let (byName, warnings) := records.foldl collapseStep ([], [])
  (byName.map (·.2), warnings)

/-- Make and write the function of a record. -/
def migrateRecord (c : Conversion) (out : File.Path) (s : State) (r : FunctionRecord) : State :=
  let failed (s : State) (message : String) : State :=
    { s with
      report := (s.report.addError ("Failed to migrate " ++ r.name ++ ": " ++ message)).addFailed
        r.name r.kind.name (some message)
      failures := s.failures ++ [⟨r.name, r.kind, message⟩] }
  match c.make r with
  | .error message => failed s message
  | .ok none =>
    { s with report := (s.report.addWarning (unsupportedWarning r)).addSkipped r.name }
  | .ok (some u) =>
    match writeUnit c.write s.files out u with
    | (.error message, files) => failed { s with files } message
    | (.ok path, files) =>
      { s with
        report := s.report.addMigrated r.name r.kind.name (some path.text) u.needsReview
        files := files
        units := s.units ++ [u] }

/-- Migrate records one after another, until cancelled. -/
def migrateRecords (c : Conversion) (out : File.Path) :
    Cancellation → List FunctionRecord → State → State
  | _, [], s => s
  | cancellation, r :: rest, s =>
    match cancellation.ask with
    | (true, _) =>
      { s with report := { s.report.addWarning cancelledWarning with cancelled := true } }
    | (false, cancellation) => migrateRecords c out cancellation rest (migrateRecord c out s r)

/-- Migrate what was found somewhere. -/
def migrateExtraction (c : Conversion) (out : File.Path) (cancellation : Cancellation)
    (e : Inventory.Extraction) (s : State) : State :=
  let (records, duplicates) := collapse e.records
  let report :=
    { s.report with
      total := records.length
      warnings := s.report.warnings ++ e.warnings ++ duplicates
      errors := s.report.errors ++ e.errors
      cancelled := s.report.cancelled || e.cancelled }
  migrateRecords c out cancellation records { s with report }

/-- The written form of a report. -/
def reportText (r : Report) : String := String.ofList (Json.render ⟨some 2, true⟩ r.toJson)

/-- Why a migration breaks off. -/
inductive Failure where
  /-- A setting has to be a text and is none. -/
  | kind
  | place (f : Document.PlaceFault)
  /-- A path is one that no file can have. -/
  | path (f : File.Fault)
  deriving DecidableEq, Repr

def Failure.message : Failure → String
  | kind => "the settings of a migration must be texts"
  | place f => f.message
  | path f => f.message

/-- A failed write of a report leaves the migration without one. It breaks off where the path is one
that no file can have. -/
def withoutReport (f : File.Fault) (s : State) : Except Failure State :=
  if f.cause.isImpossible then .error (.path f) else .ok s

/-- Write the report of a migration; where that fails, there is none. -/
def saveReport (out : File.Path) (name : Document.Value) (s : State) : Except Failure State :=
  match s.files.makeDirectories out with
  | .error f => withoutReport f s
  | .ok files =>
    match name.text? with
    | none => .error .kind
    | some name =>
      let path := out.join (.ofText name)
      match files.write path (reportText s.report).toUTF8 with
      | .error f => withoutReport f { s with files }
      | .ok files => .ok { s with files, report := { s.report with reportPath := some path.text } }

/-- Where a migration finds its functions. -/
inductive Place where
  /-- The directory or project of the order. -/
  | ordered
  /-- Elsewhere; the order's source is not looked at. -/
  | given (e : Inventory.Extraction)

/-- What a migration depends on besides its order: the conversion, the rules by which functions
are recognized, what the command-line client prints, the id of the report and the time. -/
structure Setting where
  conversion : Conversion
  registry : Registry := .standard
  reply : List Document.Value → Inventory.ClientReply := fun _ => .failed
  id : String
  period : Time.Period

/-- What the source of an order yields, the arguments of the commands run, and the cancellation
after it. -/
structure Found where
  extraction : Inventory.Extraction
  commands : List (List Document.Value) := []
  cancellation : Cancellation

/-- The functions of the order's source. -/
def extractOrdered (st : Setting) (o : Order) (t : File.Tree) (cancellation : Cancellation) :
    Except Failure Found :=
  if o.sourceDir.isFalsy then
    let client : Inventory.Client := ⟨o.program, .int Inventory.defaultTimeout, st.reply⟩
    match Inventory.extractAny st.registry client o.project st.period with
    | .error _ => .error .kind
    | .ok (e, commands) => .ok ⟨e, commands, cancellation⟩
  else
    match o.sourceDir.text? with
    | none => .error .kind
    | some directory =>
      let (e, cancellation) :=
        Inventory.extractDirectory st.registry t directory cancellation st.period
      .ok ⟨e, [], cancellation⟩

/-- What a place yields; the order's own is checked first. -/
def Place.find (st : Setting) (o : Order) (t : File.Tree) (cancellation : Cancellation) :
    Place → Except Failure (Except (List OrderError) Found)
  | .given e => .ok (.ok ⟨e, [], cancellation⟩)
  | .ordered =>
    match o.errors t with
    | .error f => .error (.place f)
    | .ok [] => (extractOrdered st o t cancellation).map .ok
    | .ok errors => .ok (.error errors)

/-- What comes of a migration: its state at the end and the arguments of the commands run. -/
structure Outcome where
  state : State
  commands : List (List Document.Value)

/-- Carry out an order. A report is written even if the migration breaks off, and what breaks off
writing it counts first. -/
def run (st : Setting) (o : Order) (place : Place) (files : File.Tree)
    (cancellation : Cancellation) : Except Failure Outcome :=
  match o.outputDir.text? with
  | none => .error .kind
  | some outputDir =>
    let out := File.Path.ofText outputDir
    let begun : State :=
      { report :=
          { id := st.id, source := o.source.shown, outputDir := out.text,
            startedAt := some st.period.start }
        files := files }
    let finish (s : State) : Except Failure State :=
      saveReport out o.reportName
        { s with report := { s.report with completedAt := some st.period.stop } }
    match place.find st o files cancellation with
    | .error f =>
      match finish begun with
      | .error g => .error g
      | .ok _ => .error f
    | .ok (.error errors) =>
      let report := { begun.report with errors := errors.map (·.message), fatal := true }
      (finish { begun with report }).map fun s => ⟨s, []⟩
    | .ok (.ok found) =>
      (finish (migrateExtraction st.conversion out found.cancellation found.extraction begun)).map
        fun s => ⟨s, found.commands⟩

theorem consistent_migrateRecord {c : Conversion} {out : File.Path} {s : State}
    (h : s.report.Consistent) (r : FunctionRecord) :
    (migrateRecord c out s r).report.Consistent := by
  unfold migrateRecord
  dsimp only
  split
  · exact Report.Consistent.addFailed (by exact h) ..
  · exact Report.Consistent.addSkipped (by exact h) _
  · split
    · exact Report.Consistent.addFailed (by exact h) ..
    · exact Report.Consistent.addMigrated h ..

/-- Through a migration each count stays the length of what it counts. -/
theorem consistent_migrateRecords {c : Conversion} {out : File.Path} {rs : List FunctionRecord}
    {cancellation : Cancellation} {s : State} (h : s.report.Consistent) :
    (migrateRecords c out cancellation rs s).report.Consistent := by
  induction rs generalizing cancellation s with
  | nil => exact h
  | cons r rest ih =>
    unfold migrateRecords
    split
    · exact h
    · exact ih (consistent_migrateRecord h r)

end BackendMigration.Migration
