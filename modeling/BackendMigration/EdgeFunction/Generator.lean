import BackendMigration.EdgeFunction.Page
import BackendMigration.EdgeFunction.Schedule
import BackendMigration.EdgeFunction.Table
import BackendMigration.Function.Record
import BackendMigration.Json.Basic
import BackendMigration.Adaptation.Body
import BackendMigration.Text.Lines

/-! Making an edge function of a function record. -/
namespace BackendMigration

/-- An edge function: its code, its import map and the script that installs its trigger. -/
structure GeneratedUnit where
  name : String
  kind : TriggerKind
  code : String
  manifest : Json
  companionSql : Option String
  needsReview : Bool
  deriving DecidableEq, Repr

/-- The JSON form of an edge function. -/
def GeneratedUnit.toJson (u : GeneratedUnit) : Json :=
  .obj
    [("name", .str u.name), ("trigger_kind", .str u.kind.name), ("code", .str u.code),
      ("manifest", u.manifest), ("companion_sql", Json.ofText? u.companionSql),
      ("needs_review", .bool u.needsReview)]

/-- How edge functions are made: the rules for bodies, the address they will have and the trigger
kinds that can be converted. -/
structure Generator where
  rules : List Adaptation.Rule
  functionsUrl : String
  kinds : List TriggerKind
  deriving DecidableEq, Repr

namespace EdgeFunction

def defaultFunctionsUrl : String := "https://YOUR_PROJECT.supabase.co/functions/v1"

/-- The column at which bodies stand. -/
def bodyIndent : Nat := 4

/-- A text that is there and not empty. -/
def nonempty? (s : Option String) : Option String := s.filter fun t => !t.isEmpty

/-- A text in a sentence; one that is not there is spelled so. -/
def spelledOut (s : Option String) : String := s.getD "None"

/-- The import map beside every function. -/
def manifest : Json :=
  .obj [("imports", .obj [("supabase", .str "https://esm.sh/@supabase/supabase-js@2")])]

/-- The table operations that run a function of a kind. -/
def kindOperation : TriggerKind → String
  | .documentCreate | .identityCreate => "INSERT"
  | .documentDelete | .identityDelete | .blobDelete => "DELETE"
  | .blobFinalize => "INSERT OR UPDATE"
  | _ => "UPDATE"

/-- The table operations of document events. -/
def documentOperations : List (String × String) :=
  [("onCreate", "INSERT"), ("onUpdate", "UPDATE"), ("onDelete", "DELETE"),
    ("onWrite", "INSERT OR UPDATE OR DELETE")]

/-- The table that a function watches, and the operations on it. -/
def watched? (r : FunctionRecord) : Option (String × String) :=
  if r.kind.isDocument then
    some ("public." ++ deriveTable r.documentPath,
      (documentOperations.lookup (r.documentEvent.getD "")).getD (kindOperation r.kind))
  else if r.kind.isIdentity then some ("auth.users", kindOperation r.kind)
  else if r.kind.isBlob then some ("storage.objects", kindOperation r.kind)
  else none

/-- The service whose events run a function. -/
def label (kind : TriggerKind) : String :=
  if kind.isDocument then "Firestore"
  else if kind.isIdentity then "Auth"
  else if kind.isBlob then "Storage"
  else if kind = .queueMessage then "Pub/Sub"
  else kind.name

/-- What a function listened to. -/
def origin (r : FunctionRecord) : String :=
  if let some path := nonempty? r.documentPath then
    path ++ " (" ++ spelledOut r.documentEvent ++ ")"
  else if let some event := nonempty? r.identityEvent then "auth.user()." ++ event
  else if let some event := nonempty? r.blobEvent then "storage.object()." ++ event
  else if let some topic := nonempty? r.topic then "pubsub.topic('" ++ topic ++ "')"
  else ""

/-- The notes on what is left to do for a function. -/
def notes (r : FunctionRecord) (functionUrl : String) : List String :=
  let kind := r.kind
  (if kind.isHttpShaped then ["Test with representative request payloads"] else []) ++
  (if kind.isWebhookShaped then ["Configure the SUPABASE_WEBHOOK_SECRET environment variable"]
    else []) ++
  (if kind.isDocument || kind.isIdentity || kind.isBlob then
    ["Install the database trigger in trigger.sql"] else []) ++
  (if kind = .queueMessage then
    ["Publishers of topic '" ++ spelledOut r.topic ++ "' must POST messages to " ++ functionUrl]
    else []) ++
  (if kind = .timeSchedule then
    let cron := cronOf r.schedule
    "Configure the CRON_SECRET environment variable" ::
      (cron.note.toList ++ [cronNote r.name cron.expression functionUrl])
    else []) ++
  ((nonempty? r.url).map ("Previously deployed at " ++ ·)).toList

/-- The code for a record whose body is adapted and indented. -/
def page (r : FunctionRecord) (body comment : String) : String :=
  match r.kind with
  | .http => httpPage r.name body comment
  | .callable => callablePage r.name body comment
  | .timeSchedule => scheduledPage r.name (r.schedule.getD "") body comment
  | kind => webhookPage (label kind) r.name (origin r) body comment

end EdgeFunction

namespace Generator

open EdgeFunction

/-- All rules, the placeholder address and all kinds. -/
def standard : Generator := ⟨Adaptation.Rule.all, defaultFunctionsUrl, TriggerKind.all⟩

def supports (g : Generator) (kind : TriggerKind) : Bool := g.kinds.contains kind

/-- The address of a function. -/
def functionUrl (g : Generator) (name : String) : String :=
  String.ofList (Text.trimEnd (· == '/') g.functionsUrl.toList) ++ "/" ++ name

/-- The script that installs the trigger of a function that an address answers; the kinds without
a table to watch have none. -/
def companionSql (g : Generator) (r : FunctionRecord) (url : Option String) : Option String :=
  (watched? r).map fun (table, operations) =>
    triggerScript r.name table operations ((nonempty? url).getD (g.functionUrl r.name))

/-- The edge function that a record becomes. -/
def unit (g : Generator) (r : FunctionRecord) : GeneratedUnit :=
  let body := Adaptation.adapt g.rules r.body.toList
  let review := Adaptation.needsReview body
  let url := g.functionUrl r.name
  let comment := notesComment r.kind.name r.sourceFile (notes r url) review
  { name := r.name
    kind := r.kind
    code := page r (String.ofList (Text.indent bodyIndent body)) comment
    manifest := manifest
    companionSql := g.companionSql r (some url)
    needsReview := review }

/-- The edge function for a record; none if its kind cannot be converted. The number in a schedule
has to be one that can be read. -/
def generate (g : Generator) (r : FunctionRecord) :
    Except Text.IntegerFault (Option GeneratedUnit) :=
  if g.supports r.kind then
    match if r.kind = .timeSchedule then scheduleFault? r.schedule else none with
    | some f => .error f
    | none => .ok (some (g.unit r))
  else .ok none

/-- A record is passed over exactly if its kind is not supported. -/
theorem generate_eq_none_iff (g : Generator) (r : FunctionRecord) :
    g.generate r = .ok none ↔ r.kind ∉ g.kinds := by
  unfold generate
  by_cases h : g.supports r.kind = true
  · rw [if_pos h]
    have hk : r.kind ∈ g.kinds := by simpa [supports] using h
    split <;> simp [hk]
  · rw [if_neg h]
    simpa [supports] using h

/-- What is generated for a record is its edge function. -/
theorem eq_unit_of_generate {g : Generator} {r : FunctionRecord} {u : GeneratedUnit}
    (h : g.generate r = .ok (some u)) : u = g.unit r := by
  unfold generate at h
  split at h
  · split at h
    · cases h
    · cases h
      rfl
  · cases h

end Generator
end BackendMigration
