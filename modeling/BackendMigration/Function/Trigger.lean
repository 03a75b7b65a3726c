import BackendMigration.Text.Blank

/-! The kinds of event that run a function. -/
namespace BackendMigration

/-- The category of event that runs a function. -/
inductive TriggerKind where
  | http
  | callable
  | documentCreate
  | documentUpdate
  | documentDelete
  | identityCreate
  | identityDelete
  | blobFinalize
  | blobDelete
  | queueMessage
  | timeSchedule
  deriving DecidableEq, Repr

namespace TriggerKind

def all : List TriggerKind :=
  [http, callable, documentCreate, documentUpdate, documentDelete, identityCreate, identityDelete,
    blobFinalize, blobDelete, queueMessage, timeSchedule]

def name : TriggerKind → String
  | http => "http"
  | callable => "callable"
  | documentCreate => "document_create"
  | documentUpdate => "document_update"
  | documentDelete => "document_delete"
  | identityCreate => "identity_create"
  | identityDelete => "identity_delete"
  | blobFinalize => "blob_finalize"
  | blobDelete => "blob_delete"
  | queueMessage => "queue_message"
  | timeSchedule => "time_schedule"

/-- The kind of a name. -/
def named? (name : String) : Option TriggerKind := all.find? (·.name == name)

/-- What is said of a value that names no kind, given its form. -/
def unknownMessage (form : Text) : String := String.ofList form ++ " is not a valid TriggerKind"

/-- Functions that answer requests of users. -/
def isHttpShaped : TriggerKind → Bool
  | http | callable => true
  | _ => false

/-- Functions that an event runs through a call with a shared secret. -/
def isWebhookShaped (kind : TriggerKind) : Bool := !kind.isHttpShaped && kind != timeSchedule

def isDocument : TriggerKind → Bool
  | documentCreate | documentUpdate | documentDelete => true
  | _ => false

def isIdentity : TriggerKind → Bool
  | identityCreate | identityDelete => true
  | _ => false

def isBlob : TriggerKind → Bool
  | blobFinalize | blobDelete => true
  | _ => false

theorem mem_all (kind : TriggerKind) : kind ∈ all := by cases kind <;> decide

@[simp] theorem named?_name (kind : TriggerKind) : named? kind.name = some kind := by
  cases kind <;> decide

/-- A function is run by requests, by events or by the clock, and by one of them only. -/
theorem shape_cases (kind : TriggerKind) :
    kind.isWebhookShaped = (kind.isDocument || kind.isIdentity || kind.isBlob ||
      kind == queueMessage) := by
  cases kind <;> decide

end TriggerKind
end BackendMigration
