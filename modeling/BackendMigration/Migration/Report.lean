import BackendMigration.Time.Form

/-! The report of a migration. -/
namespace BackendMigration.Migration

/-- What came of a function. -/
inductive Status where
  /-- Written to a directory. -/
  | migrated (path : Option String)
  | failed (message : Option String)
  deriving DecidableEq, Repr

/-- The line of a function in a report. -/
structure Summary where
  name : String
  kind : String
  status : Status
  needsReview : Bool := false
  deriving DecidableEq, Repr

def Status.name : Status → String
  | migrated _ => "migrated"
  | failed _ => "failed"

def Status.isMigrated : Status → Bool
  | migrated _ => true
  | failed _ => false

/-- What a migration has done. -/
structure Report where
  id : String
  /-- Where the functions were looked for, as the order has it. -/
  source : Json := .str ""
  outputDir : String := ""
  total : Int := 0
  migratedCount : Int := 0
  failedCount : Int := 0
  skippedCount : Int := 0
  warnings : List String := []
  errors : List String := []
  units : List Summary := []
  skipped : List String := []
  /-- The order could not be carried out at all. -/
  fatal : Bool := false
  cancelled : Bool := false
  startedAt : Option Time.Timestamp := none
  completedAt : Option Time.Timestamp := none
  reportPath : Option String := none
  deriving DecidableEq, Repr

namespace Report

/-- Note a function that was written. -/
def addMigrated (r : Report) (name kind : String) (path : Option String) (needsReview : Bool) :
    Report :=
  { r with
    migratedCount := r.migratedCount + 1
    units := r.units ++ [⟨name, kind, .migrated path, needsReview⟩] }

/-- Note a function that could not be made or written. -/
def addFailed (r : Report) (name kind : String) (message : Option String) : Report :=
  { r with
    failedCount := r.failedCount + 1
    units := r.units ++ [⟨name, kind, .failed message, false⟩] }

/-- Note a function of a kind that cannot be converted. -/
def addSkipped (r : Report) (name : String) : Report :=
  { r with skippedCount := r.skippedCount + 1, skipped := r.skipped ++ [name] }

def addWarning (r : Report) (message : String) : Report :=
  { r with warnings := r.warnings ++ [message] }

def addError (r : Report) (message : String) : Report :=
  { r with errors := r.errors ++ [message] }

/-- The order could be carried out, and no function failed. -/
def succeeded (r : Report) : Bool := !r.fatal && r.failedCount == 0

/-- The seconds from start to end. -/
def duration? (r : Report) : Option Double :=
  match r.startedAt, r.completedAt with
  | some a, some b => some (Time.secondsBetween a b)
  | _, _ => none

/-- Each count is the length of what it counts. -/
def Consistent (r : Report) : Prop :=
  r.migratedCount = (r.units.filter (·.status.isMigrated)).length ∧
    r.failedCount = (r.units.filter (!·.status.isMigrated)).length ∧
    r.skippedCount = r.skipped.length

theorem Consistent.addMigrated {r : Report} (h : r.Consistent) (name kind : String)
    (path : Option String) (needsReview : Bool) :
    (r.addMigrated name kind path needsReview).Consistent := by
  obtain ⟨h1, h2, h3⟩ := h
  simp [Consistent, Report.addMigrated, Status.isMigrated, h1, h2, h3]

theorem Consistent.addFailed {r : Report} (h : r.Consistent) (name kind : String)
    (message : Option String) : (r.addFailed name kind message).Consistent := by
  obtain ⟨h1, h2, h3⟩ := h
  simp [Consistent, Report.addFailed, Status.isMigrated, h1, h2, h3]

theorem Consistent.addSkipped {r : Report} (h : r.Consistent) (name : String) :
    (r.addSkipped name).Consistent := by
  obtain ⟨h1, h2, h3⟩ := h
  simp [Consistent, Report.addSkipped, h1, h2, h3]

end Report

/-- The JSON form of a line: the path of a written function, the message of a failed one. -/
def Summary.toJson (s : Summary) : Json :=
  .obj
    [("name", .str s.name), ("trigger_kind", .str s.kind), ("status", .str s.status.name),
      ("needs_review", .bool s.needsReview),
      match s.status with
      | .migrated path => ("output_path", Json.ofText? path)
      | .failed message => ("error_message", Json.ofText? message)]

/-- The JSON form of a report. -/
def Report.toJson (r : Report) : Json :=
  .obj
    [("id", .str r.id), ("source", r.source), ("output_dir", .str r.outputDir),
      ("total", .int r.total), ("migrated_count", .int r.migratedCount),
      ("failed_count", .int r.failedCount), ("skipped_count", .int r.skippedCount),
      ("warnings", .arr (r.warnings.map .str)), ("errors", .arr (r.errors.map .str)),
      ("units", .arr (r.units.map Summary.toJson)), ("skipped", .arr (r.skipped.map .str)),
      ("fatal", .bool r.fatal), ("cancelled", .bool r.cancelled),
      ("started_at", Time.timeJson r.startedAt), ("completed_at", Time.timeJson r.completedAt),
      ("duration_seconds", Time.secondsJson r.duration?),
      ("report_path", Json.ofText? r.reportPath)]

end BackendMigration.Migration
