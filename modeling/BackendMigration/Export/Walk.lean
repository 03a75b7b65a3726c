import BackendMigration.Cancellation
import BackendMigration.Document.Identity
import BackendMigration.Export.Result
import BackendMigration.Export.Settings
import BackendMigration.Export.Store
import BackendMigration.Relation.Writer

/-! Walking a collection and what is nested in it, and writing a record for each document. -/
namespace BackendMigration.Export

/-- What a hook makes of a record. -/
inductive HookOutcome where
  | keep (record : Document.Value)
  | drop
  | fail (message : String)
  deriving Repr, Inhabited

/-- A run of a hook: the records it adds to relations, and what it makes of its own. -/
structure HookRun where
  emissions : List (String × Document.Value)
  outcome : HookOutcome
  deriving Repr, Inhabited

/-- What is done to each record of a relation before it is written. -/
abbrev Hook := Document.Entries → HookRun

/-- All that an export depends on. -/
structure Context where
  store : Store
  hooks : Keyed Hook
  settings : Settings
  period : Time.Period

/-- What an export changes. -/
structure State where
  result : Result
  writer : Relation.Writer
  files : File.Tree
  /-- The requests to the store, the last one first. -/
  requests : List Request
  cancellation : Cancellation

/-- A step of an export; it ends early when a record cannot be written. -/
abbrev Step := ExceptT Relation.WriteError (StateM State)

/-- The parent relation, the id of the parent document and the path of the collection. -/
structure Linkage where
  relation : String
  documentId : String
  path : String
  deriving DecidableEq, Repr

/-- The field that holds nested documents. -/
def subcollectionsField : String := "subcollections"

def updateResult (f : Result → Result) : Step Unit :=
  modify fun s => { s with result := f s.result }

/-- Note a failure that does not stop the export. -/
def noteError (ctx : Context) (message path : String) : Step Unit :=
  updateResult fun r => r.addError message (some path) ctx.period.start

/-- Ask whether to stop. -/
def isCancelled : Step Bool :=
  modifyGet fun s =>
    let (answer, cancellation) := s.cancellation.ask
    (answer, { s with cancellation })

def logRequest (request : Request) : Step Unit :=
  modify fun s => { s with requests := request :: s.requests }

/-- Write a record to the file of a relation. -/
def writeToFile (relation : String) (record : Document.Value) : Step Unit := do
  let s ← get
  match s.writer.write s.files relation record with
  | (.ok writer, files) => set { s with writer, files }
  | (.error e, files) =>
    set { s with files }
    throw e

/-- Write a record that a hook adds. -/
def emit (relation : String) (record : Document.Value) : Step Unit := do
  let name := Relation.sanitize relation
  writeToFile name record
  updateResult fun r => (r.ensure name 0 none).addCount name 1

/-- Write the records that a hook adds, up to the first that cannot be written. -/
def emitAll : List (String × Document.Value) → Step (Except Relation.WriteError Unit)
  | [] => pure (.ok ())
  | (relation, record) :: rest => do
    match ← tryCatch (do emit relation record; pure (Except.ok ())) fun e => pure (.error e) with
    | .ok () => emitAll rest
    | .error e => pure (.error e)

/-- What the hook of a relation makes of a record; without a hook it is kept. -/
def applyHook (ctx : Context) (relation : String) (record : Document.Entries) :
    Step HookOutcome := do
  match Keyed.get? relation ctx.hooks with
  | none => pure (.keep (.map record))
  | some hook =>
    let run := hook record
    match ← emitAll run.emissions with
    | .ok () => pure run.outcome
    | .error e => pure (.fail e.message)

/-- Write the record of a document, unless the document was met before or the hook does not keep
it. Tells whether it was written. -/
def writeRecord (ctx : Context) (relation : String) (record : Document.Entries) (key : String)
    (depth : Nat) : Step Bool := do
  let isNew ← modifyGet fun s =>
    let (isNew, result) := s.result.markSeen relation key
    (isNew, { s with result })
  if !isNew then
    updateResult fun r => { r with duplicatesSkipped := r.duplicatesSkipped + 1 }
    return false
  match ← applyHook ctx relation record with
  | .fail message =>
    noteError ctx ("Hook failed: " ++ message) key
    return false
  | .drop =>
    updateResult fun r => { r with documentsDropped := r.documentsDropped + 1 }
    return false
  | .keep value =>
    writeToFile relation value
    updateResult fun r => (r.ensure relation depth none).addCount relation 1
    return true

/-- By what a document is recognized: its path, or its relation and id if it knows no path. -/
def documentKey (ctx : Context) (relation collectionPath : String) (doc : StoredDocument) :
    String :=
  let path := if ctx.store.pathless then relation else collectionPath
  path ++ "/" ++ doc.id

/-- The fields of a document, its id and where it is nested. -/
def baseRecord (doc : StoredDocument) (linkage : Option Linkage) : Document.Entries :=
  let record := (Document.assignIdentity doc.entries doc.id).2
  match linkage with
  | none => record
  | some l =>
    ((record.set "parent_collection" (.text l.relation)).set "parent_document_id"
      (.text l.documentId)).set "collection_path" (.text l.path)

/-- The relation of documents nested in documents of a relation. -/
def nestedRelation (relation name : String) : String := Relation.sanitize (relation ++ "_" ++ name)

/-- Export the documents of some nested collections, each with `visit`, until cancelled. -/
def walkCollections (ctx : Context)
    (visit : StoredDocument → String → String → Linkage → Step Document.Entries)
    (doc : StoredDocument) (relation : String) (depth : Nat) (documentPath : String) :
    List String → Step (Document.Entries)
  | [] => pure []
  | name :: rest => do
    if ← isCancelled then
      updateResult fun r => { r with cancelled := true }
      return []
    let childRelation := nestedRelation relation name
    let childPath := documentPath ++ "/" ++ name
    let limit := ctx.settings.subcollectionLimit
    logRequest (.fetch childPath limit 0)
    match ctx.store.fetch childPath limit 0 with
    | .error message =>
      noteError ctx ("Subcollection fetch failed: " ++ message) childPath
      walkCollections ctx visit doc relation depth documentPath rest
    | .ok children =>
      if ctx.settings.mode = .flatten then
        updateResult fun r => r.ensure childRelation (depth + 1) (some relation)
      let records ← children.mapM fun child =>
        visit child childRelation childPath ⟨relation, doc.id, childPath⟩
      let nested ← walkCollections ctx visit doc relation depth documentPath rest
      return (.text name, .list (records.map .map)) :: nested

/-- Export what is nested in a document. -/
def walkDocument (ctx : Context)
    (visit : StoredDocument → String → String → Linkage → Step Document.Entries)
    (doc : StoredDocument) (relation : String) (depth : Nat) (collectionPath : String) :
    Step Document.Value := do
  let documentPath := collectionPath ++ "/" ++ doc.id
  logRequest (.list documentPath)
  match ctx.store.nestedCollections documentPath with
  | .error message =>
    noteError ctx ("Subcollection listing failed: " ++ message) documentPath
    return .map []
  | .ok names => return .map (← walkCollections ctx visit doc relation depth documentPath names)

/-- Export a document and, through at most `levels` nested collections, what is nested in it. The
result is its record. -/
def exportDocument (ctx : Context) : (levels : Nat) → (doc : StoredDocument) →
    (relation : String) → (depth : Nat) → (collectionPath : String) → Option Linkage →
    Step Document.Entries
  | 0, doc, relation, depth, path, linkage => do
    let record := baseRecord doc linkage
    if depth = 0 ∨ ctx.settings.mode = .flatten then
      let _ ← writeRecord ctx relation record (documentKey ctx relation path doc) depth
    return record
  | levels + 1, doc, relation, depth, path, linkage => do
    let visit (child : StoredDocument) (childRelation childPath : String) (l : Linkage) :=
      exportDocument ctx levels child childRelation (depth + 1) childPath (some l)
    let record := baseRecord doc linkage
    let key := documentKey ctx relation path doc
    match ctx.settings.mode with
    | .nest =>
      let nested ← walkDocument ctx visit doc relation depth path
      let record := record.set subcollectionsField nested
      if depth = 0 then
        let _ ← writeRecord ctx relation record key depth
      return record
    | .flatten =>
      if ← writeRecord ctx relation record key depth then
        let _ ← walkDocument ctx visit doc relation depth path
      return record

/-- The number of nested collections that an export goes through. -/
def levels (s : Settings) : Nat := if s.includeSubcollections then s.maxDepth else 0

/-- Export the documents of the collection after the first `offset`, batch by batch, in at most
`batches` batches. -/
def exportBatches (ctx : Context) (relation : String) : (batches offset : Nat) → Step Unit
  | 0, _ => pure ()
  | batches + 1, offset => do
    let s := ctx.settings
    if ← isCancelled then
      updateResult fun r => { r with cancelled := true }
      return
    let size := if s.limit = 0 then s.batchSize else min s.batchSize (s.limit - offset)
    if size = 0 then return
    logRequest (.fetch s.collection size offset)
    match ctx.store.fetch s.collection size offset with
    | .error message =>
      noteError ctx ("Batch fetch failed at offset " ++ toString offset ++ ": " ++ message)
        s.collection
    | .ok [] => pure ()
    | .ok batch =>
      for doc in batch do
        let _ ← exportDocument ctx (levels s) doc relation 0 s.collection none
      exportBatches ctx relation batches (offset + batch.length)

/-- Export the whole collection: a batch has at least one document, and the last one has none. -/
def exportCollection (ctx : Context) (relation : String) : Step Unit :=
  exportBatches ctx relation ((ctx.store.documents ctx.settings.collection).length + 1) 0

end BackendMigration.Export
