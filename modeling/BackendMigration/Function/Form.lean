import BackendMigration.Document.Encoding
import BackendMigration.Function.Record

/-! The JSON form of function records. -/
namespace BackendMigration

/-- The fields for what a trigger listens to. -/
def TriggerDetail.jsonFields (d : TriggerDetail) : List (String × Json) :=
  [("document_path", Json.ofText? d.documentPath), ("document_event", Json.ofText? d.documentEvent),
    ("identity_event", Json.ofText? d.identityEvent), ("blob_event", Json.ofText? d.blobEvent),
    ("schedule", Json.ofText? d.schedule), ("topic", Json.ofText? d.topic)]

/-- The fields of a record, without its place in the source. -/
def FunctionRecord.jsonFields (r : FunctionRecord) : List (String × Json) :=
  [("name", .str r.name), ("trigger_kind", .str r.kind.name), ("source_file", .str r.sourceFile),
    ("rule", .str r.rule)] ++ r.toTriggerDetail.jsonFields ++
    [("url", Json.ofText? r.url), ("raw_match", .str r.rawMatch), ("body", .str r.body)]

def FunctionRecord.toJson (r : FunctionRecord) : Json := .obj r.jsonFields

/-- Why a JSON value is no function record. -/
inductive RecordFault where
  | missing (field : String)
  /-- A value of this form names no kind. -/
  | kind (form : Text)
  | noText (field : String)
  deriving DecidableEq, Repr

def RecordFault.message : RecordFault → String
  | missing field => "A function record needs the field " ++ field
  | kind form => TriggerKind.unknownMessage form
  | noText field => "The field " ++ field ++ " must be a text"

/-- The kind that a JSON value names. -/
def TriggerKind.ofJson (v : Json) : Except RecordFault TriggerKind :=
  match v.text?.bind TriggerKind.named? with
  | some kind => .ok kind
  | none => .error (.kind (Document.Value.ofJson v).inspect)

/-- The text of a field; none if the field is missing or null. -/
def textField? (data : Json) (field : String) : Except RecordFault (Option String) :=
  match data.field? field with
  | none | some .null => .ok none
  | some (.str s) => .ok (some s)
  | some _ => .error (.noText field)

/-- The text of a field; empty if there is none. -/
def textField (data : Json) (field : String) : Except RecordFault String :=
  (textField? data field).map fun s => s.getD ""

/-- The text of a field that has to be there. -/
def neededText (data : Json) (field : String) : Except RecordFault String :=
  if (data.field? field).isNone then .error (.missing field) else textField data field

/-- Read what a trigger listens to. -/
def TriggerDetail.ofJson (data : Json) : Except RecordFault TriggerDetail := do
  return {
    documentPath := ← textField? data "document_path"
    documentEvent := ← textField? data "document_event"
    identityEvent := ← textField? data "identity_event"
    blobEvent := ← textField? data "blob_event"
    schedule := ← textField? data "schedule"
    topic := ← textField? data "topic" }

/-- Read a record. It needs a name and a kind; other fields have their defaults. -/
def FunctionRecord.ofJson (data : Json) : Except RecordFault FunctionRecord := do
  let name ← neededText data "name"
  match data.field? "trigger_kind" with
  | none => .error (.missing "trigger_kind")
  | some kind =>
    return {
      toTriggerDetail := ← TriggerDetail.ofJson data
      name := name
      kind := ← TriggerKind.ofJson kind
      body := ← textField data "body"
      sourceFile := ← textField data "source_file"
      rawMatch := ← textField data "raw_match"
      rule := ← textField data "rule"
      url := ← textField? data "url" }

end BackendMigration
