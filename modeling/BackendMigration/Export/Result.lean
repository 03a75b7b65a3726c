import BackendMigration.Keyed
import BackendMigration.Time.Form

/-! The outcome of an export. -/
namespace BackendMigration.Export

/-- A relation that an export writes. -/
structure Relation where
  name : String
  depth : Int := 0
  parent : Option String := none
  count : Int := 0
  filePath : Option String := none
  deriving DecidableEq, Repr

/-- A relation for the documents of the exported collection. -/
def Relation.isRoot (r : Relation) : Bool := r.parent.isNone

/-- A failure that did not stop the export. -/
structure Issue where
  message : String
  path : Option String
  time : Time.Timestamp
  deriving DecidableEq, Repr

/-- What an export has done. -/
structure Result where
  collection : String
  relations : Keyed Relation := []
  errors : List Issue := []
  duplicatesSkipped : Int := 0
  documentsDropped : Int := 0
  cancelled : Bool := false
  startedAt : Option Time.Timestamp := none
  completedAt : Option Time.Timestamp := none
  /-- The relation and key of every document met. -/
  seen : List (String × String) := []
  deriving DecidableEq, Repr

namespace Result

/-- Make sure that there is a relation of a name. -/
def ensure (r : Result) (name : String) (depth : Int) (parent : Option String) : Result :=
  if Keyed.has name r.relations then r
  else { r with relations := Keyed.set name { name, depth, parent } r.relations }

/-- Count records of a relation. -/
def addCount (r : Result) (name : String) (n : Int) : Result :=
  { r with relations := r.relations.map fun e =>
      if e.1 = name then (e.1, { e.2 with count := e.2.count + n }) else e }

/-- Remember a document of a relation; false if it was met before. -/
def markSeen (r : Result) (relation key : String) : Bool × Result :=
  if (relation, key) ∈ r.seen then (false, r)
  else (true, { r with seen := (relation, key) :: r.seen })

def addError (r : Result) (message : String) (path : Option String) (time : Time.Timestamp) :
    Result :=
  { r with errors := r.errors ++ [⟨message, path, time⟩] }

/-- The number of records of each relation. -/
def counts (r : Result) : List (String × Int) := r.relations.map fun e => (e.1, e.2.count)

def totalRecords (r : Result) : Int := r.counts.foldl (fun n c => n + c.2) 0

/-- The seconds from start to end. -/
def duration? (r : Result) : Option Double :=
  match r.startedAt, r.completedAt with
  | some a, some b => some (Time.secondsBetween a b)
  | _, _ => none

end Result

/-- The JSON form of a relation. -/
def Relation.jsonFields (r : Relation) : List (String × Json) :=
  [("name", .str r.name), ("depth", .int r.depth), ("parent_collection", Json.ofText? r.parent),
    ("count", .int r.count), ("file_path", Json.ofText? r.filePath)]

def Issue.toJson (i : Issue) : Json :=
  .obj
    [("message", .str i.message), ("path", Json.ofText? i.path),
      ("timestamp", Time.timeJson (some i.time))]

namespace Result

/-- The JSON form of a result. -/
def toJson (r : Result) : Json :=
  .obj
    [("collection", .str r.collection),
      ("relations", .arr (r.relations.map fun e => .obj e.2.jsonFields)),
      ("total_records", .int r.totalRecords),
      ("errors", .arr (r.errors.map Issue.toJson)),
      ("duplicates_skipped", .int r.duplicatesSkipped),
      ("documents_dropped", .int r.documentsDropped), ("cancelled", .bool r.cancelled),
      ("started_at", Time.timeJson r.startedAt), ("completed_at", Time.timeJson r.completedAt),
      ("duration_seconds", Time.secondsJson r.duration?)]

/-- A document is new only once. -/
theorem markSeen_again (r : Result) (relation key : String) :
    ((r.markSeen relation key).2.markSeen relation key).1 = false := by
  unfold markSeen
  split <;> simp_all

end Result
end BackendMigration.Export
