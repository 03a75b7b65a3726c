import BackendMigration.Function.Record
import BackendMigration.Pattern.Match

/-! Rules that recognize how functions are declared. -/
namespace BackendMigration
namespace Recognition

/-- How a declaration is written. -/
inductive Style where
  | direct
  | factory
  | exportedFactory
  deriving DecidableEq, Repr

/-- Where the body of a declaration is looked for. -/
inductive BodySource where
  | inlined
  | handler
  deriving DecidableEq, Repr

namespace Style

def name : Style → String
  | direct => "direct"
  | factory => "factory"
  | exportedFactory => "exported_factory"

def named? (name : String) : Option Style :=
  [direct, factory, exportedFactory].find? (·.name == name)

/-- Of overlapping declarations the one of greater specificity counts. -/
def specificity : Style → Nat
  | direct => 1
  | factory => 2
  | exportedFactory => 3

def bodySource : Style → BodySource
  | direct => .inlined
  | _ => .handler

end Style

def BodySource.name : BodySource → String
  | inlined => "inline"
  | handler => "handler"

/-- What triggers the functions of a rule. -/
inductive Family where
  | http
  | callable
  | document
  | identity
  | blob
  | queue
  | schedule
  deriving DecidableEq, Repr

namespace Family

def all : List Family := [http, callable, document, identity, blob, queue, schedule]

def name : Family → String
  | http => "http"
  | callable => "callable"
  | document => "document"
  | identity => "identity"
  | blob => "blob"
  | queue => "queue"
  | schedule => "schedule"

def named? (name : String) : Option Family := all.find? (·.name == name)

/-- What is said of a text that names no family. -/
def unknownMessage (name : String) : String := "Unknown trigger family: " ++ name

end Family

/-- The names of document events, first and second generation, and the events they stand for. -/
def documentEvents : List (String × String) :=
  [("onCreate", "onCreate"), ("Created", "onCreate"), ("onUpdate", "onUpdate"),
    ("Updated", "onUpdate"), ("onDelete", "onDelete"), ("Deleted", "onDelete"),
    ("onWrite", "onWrite"), ("Written", "onWrite")]

/-- The names of blob events, and the events they stand for. -/
def blobEvents : List (String × String) :=
  [("onFinalize", "onFinalize"), ("Finalized", "onFinalize"), ("onArchive", "onFinalize"),
    ("Archived", "onFinalize"), ("onMetadataUpdate", "onFinalize"),
    ("MetadataUpdated", "onFinalize"), ("onDelete", "onDelete"), ("Deleted", "onDelete")]

/-- What a declaration says: the name of the function, its trigger and what that listens to. -/
structure Declaration where
  name : Option String
  kind : TriggerKind
  detail : TriggerDetail
  deriving DecidableEq, Repr

/-- The trigger of a document event; any event but creation and deletion is an update. -/
def documentKind (event : String) : TriggerKind :=
  if event = "onCreate" then .documentCreate
  else if event = "onDelete" then .documentDelete
  else .documentUpdate

/-- What the named parts of a declaration say. -/
def Family.resolve (family : Family) (part? : String → Option String) : Declaration :=
  let base : TriggerDetail :=
    { documentPath := part? "path", schedule := part? "schedule", topic := part? "topic" }
  let event := (part? "event").getD ""
  let declaration (kind : TriggerKind) (detail : TriggerDetail) : Declaration :=
    ⟨part? "name", kind, detail⟩
  match family with
  | http => declaration .http base
  | callable => declaration .callable base
  | document =>
    let event := (documentEvents.lookup event).getD "onWrite"
    declaration (documentKind event) { base with documentEvent := some event }
  | identity =>
    declaration (if event = "onDelete" then .identityDelete else .identityCreate)
      { base with identityEvent := some (if event = "" then "onCreate" else event) }
  | blob =>
    let event := (blobEvents.lookup event).getD "onFinalize"
    declaration (if event = "onDelete" then .blobDelete else .blobFinalize)
      { base with blobEvent := some event }
  | queue => declaration .queueMessage base
  | schedule => declaration .timeSchedule base

end Recognition

/-- One way of declaring a function. -/
structure RecognitionRule where
  name : String
  pattern : Pattern
  family : Recognition.Family
  style : Recognition.Style := .direct
  deriving DecidableEq, Repr

/-- What a match of the rule says. -/
def RecognitionRule.resolve (rule : RecognitionRule) (m : Match) : Recognition.Declaration :=
  rule.family.resolve fun name => (m.part? name).map String.ofList

end BackendMigration
