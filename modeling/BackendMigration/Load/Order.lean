import BackendMigration.Document.Setting
import BackendMigration.Environment
import BackendMigration.Load.Loader

/-! Loading exported relations as settings describe it. -/
namespace BackendMigration.Load

open Document (Value)

/-- What is loaded, and where to. -/
structure Order where
  inputDir : Value
  url : Value
  key : Value
  batchSize : Int
  dryRun : Bool
  upsert : Bool
  onConflict : Value
  deriving Repr

/-- Read an order; what it leaves open comes from the environment. -/
def Order.ofEntries (data : Document.Entries) (environment : Environment) :
    Except Document.IntegerFault Order := do
  let batchSize ← data.integerSetting "batch_size" 1000
  return {
    inputDir := data.setting "input_dir" (.text "./firestore-export")
    url := data.settingOr "supabase_url" (Keyed.get? "SUPABASE_URL" environment)
    key := data.settingOr "service_role_key" (Keyed.get? "SUPABASE_SERVICE_ROLE_KEY" environment)
    batchSize := batchSize
    dryRun := data.truthSetting "dry_run" false
    upsert := data.truthSetting "upsert" true
    onConflict := data.setting "on_conflict" (.text "firestore_id") }

/-- What is wrong with an order. -/
inductive OrderError where
  | noDirectory (directory : String)
  | noUrl
  | noKey
  deriving DecidableEq, Repr

def OrderError.message : OrderError → String
  | noDirectory directory => "Input directory not found: " ++ directory
  | noUrl => "SUPABASE_URL is required"
  | noKey => "SUPABASE_SERVICE_ROLE_KEY is required"

/-- Everything that is wrong with an order, given the files. A dry run needs neither address nor
key. -/
def Order.errors (o : Order) (t : File.Tree) : Except Document.PlaceFault (List OrderError) := do
  let found ← o.inputDir.namesDirectory t
  return (if found then [] else [.noDirectory o.inputDir.spelled]) ++
    (if o.dryRun || !o.url.isFalsy then [] else [.noUrl]) ++
    (if o.dryRun || !o.key.isFalsy then [] else [.noKey])

/-- The JSON form of an order. -/
def Order.toJson (o : Order) : Json :=
  .obj
    [("input_dir", o.inputDir.shown), ("supabase_url", o.url.shown),
      ("service_role_key", o.key.shown), ("batch_size", .int o.batchSize),
      ("dry_run", .bool o.dryRun), ("upsert", .bool o.upsert),
      ("on_conflict", o.onConflict.shown)]

/-- The settings of an order's loader. -/
def Order.settings (o : Order) : Settings :=
  { url := o.url
    key := o.key
    dryRun := o.dryRun
    batchSize := o.batchSize
    upsert := o.upsert
    onConflict := o.onConflict }

/-- Why an order is not carried out. -/
inductive Failure where
  | invalid (errors : List OrderError)
  | settings (e : SettingsError)
  | place (f : Document.PlaceFault)
  /-- A file has too much in it to keep track of. -/
  | file (e : Relation.ReadError)
  deriving DecidableEq, Repr

def Failure.message : Failure → String
  | invalid errors => "; ".intercalate (errors.map OrderError.message)
  | settings e => e.message
  | place f => f.message
  | file e => e.message

/-- Carry out an order. -/
def Order.run (o : Order) (t : File.Tree) (period : Time.Period) (c : Connection) :
    Except Failure (Keyed Result × Connection) :=
  match o.errors t with
  | .error f => .error (.place f)
  | .ok [] =>
    match o.settings.loader, o.inputDir.text? with
    | .error e, _ => .error (.settings e)
    | .ok _, none => .error (.place .kind)
    | .ok l, some directory =>
      (l.loadDirectory t (.ofText directory) period c).mapError .file
  | .ok errors => .error (.invalid errors)

end BackendMigration.Load
