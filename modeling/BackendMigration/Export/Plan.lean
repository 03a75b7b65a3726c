import BackendMigration.Document.Setting
import BackendMigration.Environment
import BackendMigration.Export.Exporter
import BackendMigration.Export.HookFiles

/-! Exports as settings describe them. -/
namespace BackendMigration.Export

open Document (Value)

/-- An export with its surroundings: what is exported and where, from which project, with which
hooks. -/
structure Plan where
  collection : Value
  batchSize : Int
  limit : Int
  includeSubcollections : Bool
  maxDepth : Int
  subcollectionLimit : Int
  mode : Mode
  outputDir : Value
  credentialsPath : Value
  projectId : Value
  hooksDir : Value
  deriving Repr

/-- What is wrong with a setting. -/
inductive SettingError where
  | number (f : Document.IntegerFault)
  /-- A value of this form names no mode. -/
  | mode (form : Text)
  deriving DecidableEq, Repr

def SettingError.message : SettingError → String
  | number f => f.message
  | mode form => Mode.unknownMessage form

/-- A mode by its name; the first one if there is no name. -/
def modeSetting (data : Document.Entries) : Except SettingError Mode :=
  let v := data.setting "subcollection_mode" (.text Mode.flatten.name)
  match Mode.ofValue? v with
  | some mode => .ok mode
  | none => .error (.mode v.inspect)

/-- Read a plan; what it leaves open comes from the environment. -/
def Plan.ofEntries (data : Document.Entries) (environment : Environment) :
    Except SettingError Plan := do
  let number (key : String) (default : Int) : Except SettingError Int :=
    (data.integerSetting key default).mapError .number
  let batchSize ← number "batch_size" 1000
  let limit ← number "limit" 0
  let maxDepth ← number "max_depth" 3
  let subcollectionLimit ← number "subcollection_limit" 100
  let mode ← modeSetting data
  return {
    collection := data.setting "collection" (.text "")
    batchSize := batchSize
    limit := limit
    includeSubcollections := data.truthSetting "include_subcollections" false
    maxDepth := maxDepth
    subcollectionLimit := subcollectionLimit
    mode := mode
    outputDir := data.setting "output_dir" (.text "./firestore-export")
    credentialsPath := data.settingOr "credentials_path"
      (environment.either? "GOOGLE_APPLICATION_CREDENTIALS" "FIREBASE_CREDENTIALS_PATH")
    projectId := data.settingOr "project_id" (Keyed.get? "FIREBASE_PROJECT_ID" environment)
    hooksDir := data.setting "hooks_dir" .null }

/-- What is wrong with a plan. -/
inductive PlanError where
  | noCollection
  | batchSize
  | limit
  | maxDepth
  | subcollectionLimit
  deriving DecidableEq, Repr

def PlanError.message : PlanError → String
  | noCollection => "Collection name is required"
  | batchSize => "Batch size must be positive"
  | limit => "Limit must not be negative"
  | maxDepth => "Max depth must not be negative"
  | subcollectionLimit => "Subcollection limit must be positive"

/-- Everything that is wrong with a plan. -/
def Plan.errors (p : Plan) : List PlanError :=
  (if p.collection.isFalsy then [.noCollection] else []) ++
  (if p.batchSize ≤ 0 then [.batchSize] else []) ++
  (if p.limit < 0 then [.limit] else []) ++
  (if p.maxDepth < 0 then [.maxDepth] else []) ++
  (if p.subcollectionLimit ≤ 0 then [.subcollectionLimit] else [])

/-- The JSON form of a plan. -/
def Plan.toJson (p : Plan) : Json :=
  .obj
    [("collection", p.collection.shown), ("batch_size", .int p.batchSize),
      ("limit", .int p.limit), ("include_subcollections", .bool p.includeSubcollections),
      ("max_depth", .int p.maxDepth), ("subcollection_limit", .int p.subcollectionLimit),
      ("subcollection_mode", .str p.mode.name), ("output_dir", p.outputDir.shown),
      ("project_id", p.projectId.shown), ("hooks_dir", p.hooksDir.shown)]

/-- The export of a plan for a collection. -/
def Plan.order (p : Plan) (collection : String) : Order :=
  { collection := collection
    batchSize := p.batchSize
    limit := p.limit
    includeSubcollections := p.includeSubcollections
    maxDepth := p.maxDepth
    subcollectionLimit := p.subcollectionLimit
    mode := .text p.mode.name }

/-- Why a plan is not carried out to its end. -/
inductive PlanFailure where
  | invalid (errors : List PlanError)
  | place (f : Document.PlaceFault)
  | noCredentials (path : String)
  /-- There is no store to export from. -/
  | noStore
  | hooks (f : HooksFault)
  /-- A setting has to be a text and is none. -/
  | kind
  | export (f : Failure)
  deriving DecidableEq, Repr

def PlanFailure.message : PlanFailure → String
  | invalid errors => "; ".intercalate (errors.map PlanError.message)
  | place f => f.message
  | noCredentials path => "Firebase credentials not found at: " ++ path
  | noStore => "No document store to export from"
  | hooks f => f.message
  | kind => "the output directory and the collection must be texts"
  | .export f => f.message

/-- The store at hand, or why there is none. -/
def Plan.open (p : Plan) (store : Option Store) (files : File.Tree) : Except PlanFailure Store :=
  match store with
  | some store => .ok store
  | none =>
    if p.credentialsPath.isFalsy then .error .noStore
    else
      match p.credentialsPath.namesFile files with
      | .error f => .error (.place f)
      | .ok true => .error .noStore
      | .ok false => .error (.noCredentials p.credentialsPath.spelled)

/-- The text that a setting is. -/
def settingText (v : Value) : Except PlanFailure String :=
  match v.text? with
  | some s => .ok s
  | none => .error .kind

/-- Carry out a plan. -/
def Plan.run (p : Plan) (store : Option Store) (hook? : ByteArray → Option Hook)
    (period : Time.Period) (files : File.Tree) (cancellation : Cancellation) :
    Except PlanFailure Outcome := do
  if p.errors ≠ [] then .error (.invalid p.errors)
  let store ← p.open store files
  let directory ← settingText p.outputDir
  let hooks ← (hooksIn files p.hooksDir hook?).mapError .hooks
  let collection ← settingText p.collection
  let session : Session := ⟨⟨.ofText directory, some 2, [], false⟩, files, cancellation⟩
  return (Exporter.mk store hooks).export (p.order collection) period session

/-- A plan without errors has an export whose bounds are in range. -/
theorem Plan.settings_order_of_no_errors {p : Plan} (h : p.errors = []) (collection : String) :
    ∃ s, (p.order collection).settings = .ok s := by
  simp only [Plan.errors, List.append_eq_nil_iff] at h
  obtain ⟨⟨⟨⟨-, h1⟩, h2⟩, h3⟩, h4⟩ := h
  have h1 : ¬p.batchSize ≤ 0 := by intro hn; simp [hn] at h1
  have h2 : ¬p.limit < 0 := by intro hn; simp [hn] at h2
  have h3 : ¬p.maxDepth < 0 := by intro hn; simp [hn] at h3
  have h4 : ¬p.subcollectionLimit ≤ 0 := by intro hn; simp [hn] at h4
  cases hs : (p.order collection).settings with
  | ok s => exact ⟨s, rfl⟩
  | error e =>
    simp [Order.settings, Plan.order, h1, h2, h3, h4, Mode.ofValue?, Value.text?] at hs

end BackendMigration.Export
