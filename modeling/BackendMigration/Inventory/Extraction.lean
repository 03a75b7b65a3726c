import BackendMigration.Function.Record
import BackendMigration.Time.Form

/-! What a place where functions are looked for yields. -/
namespace BackendMigration.Inventory

/-- The functions found in a place. -/
structure Extraction where
  /-- Where they were looked for. -/
  source : String
  records : List FunctionRecord := []
  filesScanned : Nat := 0
  errors : List String := []
  warnings : List String := []
  cancelled : Bool := false
  period : Option Time.Period := none
  /-- The project that was listed. -/
  project : Option Json := none
  deriving DecidableEq, Repr

/-- Nothing went wrong. -/
def Extraction.success (e : Extraction) : Bool := e.errors.isEmpty

/-- The seconds it took. -/
def Extraction.duration? (e : Extraction) : Option Double :=
  e.period.map fun p => Time.secondsBetween p.start p.stop

/-- The JSON form of an extraction, without its records. -/
def Extraction.jsonFields (e : Extraction) : List (String × Json) :=
  [("source", .str e.source), ("total_extracted", .int e.records.length),
    ("files_scanned", .int e.filesScanned), ("errors", .arr (e.errors.map .str)),
    ("warnings", .arr (e.warnings.map .str)), ("cancelled", .bool e.cancelled),
    ("started_at", Time.timeJson (e.period.map (·.start))),
    ("completed_at", Time.timeJson (e.period.map (·.stop))),
    ("duration_seconds", Time.secondsJson e.duration?),
    ("metadata", .obj (e.project.toList.map fun p => ("project_id", p)))]

end BackendMigration.Inventory
