import BackendMigration.Function.Form
import BackendMigration.Migration.Run
import BackendMigration.Service.Address
import BackendMigration.Service.Body

/-! Answering requests: migrations that are run and kept, and previews of source text. -/
namespace BackendMigration.Service

/-- What a path names. -/
inductive Route where
  | health
  | migrations
  | migration (id : String)
  | scan
  | generate
  | adapt
  deriving DecidableEq, Repr

/-- The route of a path's names. -/
def routeOf? : List String → Option Route
  | ["api", "health"] => some .health
  | ["api", "migrations"] => some .migrations
  | ["api", "migrations", id] => if id.isEmpty then none else some (.migration id)
  | ["api", "preview", "scan"] => some .scan
  | ["api", "preview", "generate"] => some .generate
  | ["api", "preview", "rewrite"] => some .adapt
  | _ => none

/-- The names on a path after its first slash. A line feed at the end of the path does not count,
except in the id of a report. -/
def pathNames (path : Text) : List (List String) :=
  let names (t : Text) : List String := ((Text.splitBy (· == '/') t).drop 1).map String.ofList
  [names path, names (if path.getLast? = some '\n' then path.dropLast else path)]

/-- The route of a path as it is. -/
def exactRoute? (path : Text) : Option Route := (pathNames path).findSome? routeOf?

/-- The route of an address; slashes at the end of its path are left out if that leads to a
route. -/
def route? (address : String) : Option Route :=
  let path := pathOf address
  (exactRoute? path).or (exactRoute? (Text.trimEnd (· == '/') path))

/-- The methods of a route. -/
def Route.methods : Route → List String
  | health => ["GET"]
  | migrations => ["GET", "POST"]
  | migration _ => ["GET"]
  | scan | generate | adapt => ["POST"]

/-- An answer. -/
structure Reply where
  status : Nat
  body : Json
  deriving DecidableEq, Repr

def Reply.ok (body : Json) : Reply := ⟨200, body⟩

/-- An answer that only tells what is wrong. -/
def Reply.detail (status : Nat) (message : String) : Reply :=
  ⟨status, .obj [("detail", .str message)]⟩

/-- What a service keeps: the reports of migrations, and the files. -/
structure State where
  reports : Keyed Json := []
  files : File.Tree

/-- What a service depends on. -/
structure Surroundings where
  reply : List Document.Value → Inventory.ClientReply
  period : Time.Period
  /-- The id of the `n`th report. -/
  newId : Nat → String

/-- A line of a report in an answer: with a path and a message, either of which may be null. -/
def summaryBody (s : Migration.Summary) : Json :=
  let (path, message) : Json × Json := match s.status with
    | .migrated path => (Json.ofText? path, .null)
    | .failed message => (.null, Json.ofText? message)
  .obj
    [("name", .str s.name), ("trigger_kind", .str s.kind), ("status", .str s.status.name),
      ("output_path", path), ("error_message", message), ("needs_review", .bool s.needsReview)]

/-- A report in an answer. -/
def reportBody (r : Migration.Report) : Json :=
  match r.toJson with
  | .obj fields => .obj (Keyed.set "units" (.arr (r.units.map summaryBody)) fields)
  | v => v

def migrationFields : List Field :=
  [⟨"source_dir", false, true⟩, ⟨"firebase_project", false, true⟩, ⟨"output_dir", false, false⟩,
    ⟨"report_filename", false, false⟩, ⟨"firebase_cli", false, false⟩]

def sourceFields : List Field := [⟨"content", true, false⟩, ⟨"file_path", false, false⟩]

def bodyFields : List Field := [⟨"body", true, false⟩]

/-- What comes of a request. It has no answer when a migration breaks off. -/
abbrev Answered := Except Migration.Failure (Reply × State)

/-- Go on with a body that is as it should be. -/
def withBody (fields : List Field) (body : Option Json) (state : State) (go : Json → Answered) :
    Answered :=
  match faults fields body with
  | [] => go (body.getD .null)
  | fs => .ok (⟨422, .arr (fs.map Fault.toJson)⟩, state)

/-- The settings in a body. -/
def settingsOf : Json → Document.Entries
  | .obj fields => Document.Value.ofJsonFields fields
  | _ => []

/-- Run a migration and keep its report. -/
def createMigration (s : Surroundings) (state : State) (body : Json) : Answered :=
  let id := s.newId state.reports.length
  let setting : Migration.Setting :=
    { conversion := .ofGenerator .standard, reply := s.reply, id, period := s.period }
  (Migration.run setting (.ofEntries (settingsOf body)) .ordered state.files .never).map fun o =>
    let report := reportBody o.state.report
    (.ok report, ⟨Keyed.set id report state.reports, o.state.files⟩)

/-- The functions that a body's source text declares. -/
def scanned (body : Json) : List FunctionRecord :=
  Recognition.scan .standard (textOf body "content").toList (textOf body "file_path")

def previewScan (body : Json) : Reply :=
  let records := scanned body
  .ok (.obj [("functions", .arr (records.map (·.toJson))), ("total", .int records.length)])

/-- The edge function that was made of a function, if one was. -/
def madeUnit? : String × Except Text.IntegerFault (Option GeneratedUnit) → Option Json
  | (_, .ok (some u)) => some u.toJson
  | _ => none

/-- The name of a function that was passed over. -/
def passedOver? : String × Except Text.IntegerFault (Option GeneratedUnit) → Option Json
  | (name, .ok none) => some (.str name)
  | _ => none

/-- The name of a function of which none could be made, and why. -/
def unmade? : String × Except Text.IntegerFault (Option GeneratedUnit) → Option (String × Json)
  | (name, .error f) => some (name, .str f.message)
  | _ => none

def previewGenerate (body : Json) : Reply :=
  let made := (scanned body).map fun r => (r.name, Generator.standard.generate r)
  .ok (.obj
    [("units", .arr (made.filterMap madeUnit?)), ("skipped", .arr (made.filterMap passedOver?)),
      ("failed", .ofPairs (made.filterMap unmade?))])

/-- An adapted text and what a reviewer has to know of it. -/
def adaptedBody (t : Text) : Json :=
  .obj
    [("body", .str (String.ofList t)), ("needs_review", .bool (Adaptation.needsReview t)),
      ("reasons", .arr ((Adaptation.reasons t).map .str))]

def previewAdapted (body : Json) : Reply :=
  .ok (adaptedBody (Adaptation.adapt Adaptation.Rule.all (textOf body "body").toList))

/-- All reports kept, the latest at the end. -/
def listMigrations (state : State) : Reply :=
  .ok (.obj
    [("migrations", .arr (state.reports.map (·.2))), ("total", .int state.reports.length)])

/-- Answer a request. The case of its method does not count. -/
def handle (s : Surroundings) (state : State) (method address : String) (body : Option Json) :
    Answered :=
  let method := method.toUpper
  match route? address with
  | none => .ok (.detail 404 "Not Found", state)
  | some route =>
    if method ∉ route.methods then .ok (.detail 405 "Method Not Allowed", state)
    else
      match route with
      | .health => .ok (.ok (.obj [("status", .str "healthy")]), state)
      | .migrations =>
        if method = "GET" then .ok (listMigrations state, state)
        else withBody migrationFields body state (createMigration s state)
      | .migration id =>
        match Keyed.get? id state.reports with
        | some report => .ok (.ok report, state)
        | none => .ok (.detail 404 "Migration not found", state)
      | .scan => withBody sourceFields body state fun b => .ok (previewScan b, state)
      | .generate => withBody sourceFields body state fun b => .ok (previewGenerate b, state)
      | .adapt => withBody bodyFields body state fun b => .ok (previewAdapted b, state)

/-- A request that only asks is answered, and changes nothing. -/
theorem handle_get {method : String} (h : method.toUpper = "GET") (s : Surroundings)
    (state : State) (address : String) (body : Option Json) :
    ∃ reply, handle s state method address body = .ok (reply, state) := by
  unfold handle
  simp only [h]
  split
  · exact ⟨_, rfl⟩
  · rename_i route _
    cases route with
    | migration id =>
      simp only [Route.methods, List.mem_singleton, not_true_eq_false, if_false]
      split <;> exact ⟨_, rfl⟩
    | _ => simp [Route.methods]

end BackendMigration.Service
