import BackendMigration.Proofs.Export.Outcome
import BackendMigration.Proofs.Export.Visit

/-! An export that keeps a trace of what it does, event by event. -/
namespace BackendMigration.Export

/-- What becomes of a document's record that is passed on to be written. -/
inductive Fate where
  /-- The document was met before. -/
  | repeated
  /-- Its hook does not keep it. -/
  | dropped
  /-- Its hook fails. -/
  | refused
  | written (value : Document.Value)
  deriving Repr

/-- What an export does. -/
inductive Event where
  /-- It asks whether to stop. -/
  | asked (stop : Bool)
  /-- It asks for documents of the exported collection, or of one nested in a document. -/
  | fetched (above : Option Visit) (path : String) (limit offset : Nat)
  /-- It asks for the collections nested in a document. -/
  | listed (v : Visit)
  /-- It passes a document's record on to be written. -/
  | offered (v : Visit) (record : Document.Entries)
  /-- It writes a record that a hook adds. -/
  | emitted (relation : String) (value : Document.Value)
  /-- It fails to write a record. -/
  | rejected (relation : String) (value : Document.Value)
  | settled (v : Visit) (fate : Fate)

namespace Event

/-- The request to the store, if the event is one. -/
def request? : Event → Option Request
  | fetched _ path limit offset => some (.fetch path limit offset)
  | listed v => some (.list v.path)
  | _ => none

/-- The record that is written, and its relation. -/
def write? : Event → Option (String × Document.Value)
  | emitted relation value => some (relation, value)
  | settled v (.written value) => some (v.relation, value)
  | _ => none

/-- The document whose record is passed on. -/
def offered? : Event → Option Visit
  | offered v _ => some v
  | _ => none

end Event

/-- What is written in the course of some events. -/
def writes (events : List Event) : List (String × Document.Value) := events.filterMap Event.write?

def writesTo (relation : String) (events : List Event) : List Document.Value :=
  ((writes events).filter (·.1 == relation)).map (·.2)

/-- What is asked of the store in the course of some events. -/
def requested (events : List Event) : List Request := events.filterMap Event.request?

/-- A step of an export that adds what it does to a trace. -/
abbrev Traced := ExceptT Relation.WriteError (StateM (State × List Event))

namespace Traced

/-- A step without a trace. -/
def silently {α : Type} (m : Step α) : Traced α :=
  ExceptT.mk fun (s, told) => ((m.run.run s).1, ((m.run.run s).2, told))

def tell (event : Event) : Traced Unit := modify fun (s, told) => (s, told ++ [event])

/-- A step that is one event. -/
def act (event : Event) (m : Step Unit) : Traced Unit := do
  silently m
  tell event

/-- The error of a step as its result. -/
def attempt (m : Step Unit) : Step (Except Relation.WriteError Unit) :=
  tryCatch (do m; pure (Except.ok ())) fun e => pure (.error e)

/-- Ask whether to stop, and note it if so. -/
def noteStop : Step Bool := do
  let stop ← isCancelled
  if stop then updateResult fun r => { r with cancelled := true }
  return stop

def ask : Traced Bool := do
  let stop ← silently noteStop
  tell (.asked stop)
  return stop

/-- Try to write a record, and tell of it. -/
def tryWrite (m : Step Unit) (written rejected : Event) :
    Traced (Except Relation.WriteError Unit) := do
  let outcome ← silently (attempt m)
  tell (if outcome.isOk then written else rejected)
  return outcome

/-- Write the records that a hook adds. -/
def emitAll : List (String × Document.Value) → Traced (Except Relation.WriteError Unit)
  | [] => pure (.ok ())
  | (relation, value) :: rest => do
    let name := Relation.sanitize relation
    match ← tryWrite (emit relation value) (.emitted name value) (.rejected name value) with
    | .ok () => emitAll rest
    | .error e => pure (.error e)

/-- What the hook of a relation makes of a record. -/
def applyHook (ctx : Context) (relation : String) (record : Document.Entries) :
    Traced HookOutcome := do
  match Keyed.get? relation ctx.hooks with
  | none => pure (.keep (.map record))
  | some hook =>
    let run := hook record
    match ← emitAll run.emissions with
    | .ok () => pure run.outcome
    | .error e => pure (.fail e.message)

/-- Store the record of a document. -/
def store (v : Visit) (value : Document.Value) : Traced Unit := do
  match ← tryWrite (storeRecord v.relation v.depth value) (.settled v (.written value))
    (.rejected v.relation value) with
  | .ok () => pure ()
  | .error e => throw e

/-- Pass the record of a document on, and tell whether the document is new. -/
def offer (v : Visit) (record : Document.Entries) (key : String) : Traced Bool := do
  let isNew ← silently (meet v.relation key)
  tell (.offered v record)
  return isNew

/-- Write the record of a document, and tell whether it was written. -/
def writeRecord (ctx : Context) (v : Visit) (record : Document.Entries) : Traced Bool := do
  let key := documentKey ctx v.relation v.collectionPath v.document
  if !(← offer v record key) then
    act (.settled v .repeated)
      (updateResult fun r => { r with duplicatesSkipped := r.duplicatesSkipped + 1 })
    return false
  match ← applyHook ctx v.relation record with
  | .fail message =>
    act (.settled v .refused) (noteError ctx ("Hook failed: " ++ message) key)
    return false
  | .drop =>
    act (.settled v .dropped)
      (updateResult fun r => { r with documentsDropped := r.documentsDropped + 1 })
    return false
  | .keep value =>
    store v value
    return true

/-- What is done for an answer to a fetch in a nested collection. -/
def noteFetch (ctx : Context) (v : Visit) (name : String) : Step Unit := do
  let path := v.path ++ "/" ++ name
  let limit := ctx.settings.subcollectionLimit
  logRequest (.fetch path limit 0)
  match ctx.store.fetch path limit 0 with
  | .error message => noteError ctx ("Subcollection fetch failed: " ++ message) path
  | .ok _ =>
    if ctx.settings.mode = .flatten then
      updateResult fun r => r.ensure (nestedRelation v.relation name) (v.depth + 1) (some v.relation)

/-- Export the documents of some nested collections. -/
def walkCollections (ctx : Context) (visit : Visit → Traced Document.Entries) (v : Visit) :
    List String → Traced Document.Entries
  | [] => pure []
  | name :: rest => do
    if ← ask then return []
    let path := v.path ++ "/" ++ name
    let limit := ctx.settings.subcollectionLimit
    act (.fetched (some v) path limit 0) (noteFetch ctx v name)
    match ctx.store.fetch path limit 0 with
    | .error _ => walkCollections ctx visit v rest
    | .ok children =>
      let records ← children.mapM fun child => visit (v.child name child)
      let nested ← walkCollections ctx visit v rest
      return (.text name, .list (records.map .map)) :: nested

/-- What is done for an answer to a listing. -/
def noteListing (ctx : Context) (v : Visit) : Step Unit := do
  logRequest (.list v.path)
  match ctx.store.nestedCollections v.path with
  | .error message => noteError ctx ("Subcollection listing failed: " ++ message) v.path
  | .ok _ => pure ()

/-- Export what is nested in a document. -/
def walkDocument (ctx : Context) (visit : Visit → Traced Document.Entries) (v : Visit) :
    Traced Document.Value := do
  act (.listed v) (noteListing ctx v)
  match ctx.store.nestedCollections v.path with
  | .error _ => return .map []
  | .ok names => return .map (← walkCollections ctx visit v names)

/-- Export a document and what is nested in it. -/
def exportDocument (ctx : Context) : (levels : Nat) → Visit → Traced Document.Entries
  | 0, v => do
    if v.depth = 0 ∨ ctx.settings.mode = .flatten then
      let _ ← writeRecord ctx v v.record
    return v.record
  | levels + 1, v => do
    match ctx.settings.mode with
    | .nest =>
      let nested ← walkDocument ctx (exportDocument ctx levels) v
      let record := v.record.set subcollectionsField nested
      if v.depth = 0 then
        let _ ← writeRecord ctx v record
      return record
    | .flatten =>
      if ← writeRecord ctx v v.record then
        let _ ← walkDocument ctx (exportDocument ctx levels) v
      return v.record

/-- The number of documents that the next batch is to have. -/
def pageSize (s : Settings) (offset : Nat) : Nat :=
  if s.limit = 0 then s.batchSize else min s.batchSize (s.limit - offset)

/-- What is done for an answer to a fetch in the exported collection. -/
def notePage (ctx : Context) (offset : Nat) : Step Unit := do
  let s := ctx.settings
  logRequest (.fetch s.collection (pageSize s offset) offset)
  match ctx.store.fetch s.collection (pageSize s offset) offset with
  | .error message =>
    noteError ctx ("Batch fetch failed at offset " ++ toString offset ++ ": " ++ message)
      s.collection
  | .ok _ => pure ()

/-- Export the documents of the collection after the first `offset`, batch by batch. -/
def exportBatches (ctx : Context) : (batches offset : Nat) → Traced Unit
  | 0, _ => pure ()
  | batches + 1, offset => do
    let s := ctx.settings
    if ← ask then return
    if pageSize s offset = 0 then return
    act (.fetched none s.collection (pageSize s offset) offset) (notePage ctx offset)
    match ctx.store.fetch s.collection (pageSize s offset) offset with
    | .error _ => pure ()
    | .ok [] => pure ()
    | .ok batch =>
      for d in batch do
        let _ ← exportDocument ctx (levels s) (.root s.collection d)
      exportBatches ctx batches (offset + batch.length)

/-- Export the whole collection. -/
def exportCollection (ctx : Context) : Traced Unit :=
  exportBatches ctx ((ctx.store.documents ctx.settings.collection).length + 1) 0

end Traced

/-- What an export does from its first request to its last one, event by event. -/
def Exporter.trace (e : Exporter) (settings : Settings) (period : Time.Period) (session : Session) :
    List Event :=
  ((Traced.exportCollection ⟨e.store, e.hooks, settings, period⟩).run.run
    (.initial settings period session, [])).2.2

end BackendMigration.Export
