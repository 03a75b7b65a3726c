import BackendMigration.Export.Walk

/-! Exporting a collection to relation files. -/
namespace BackendMigration.Export

/-- Why an export ends without a result. -/
inductive Failure where
  | order (e : OrderError)
  | write (e : Relation.WriteError)
  deriving DecidableEq, Repr

def Failure.message : Failure → String
  | order e => e.message
  | write e => e.message

/-- An exporter: a store, and what is done to the records of some relations. -/
structure Exporter where
  store : Store
  hooks : Keyed Hook := []

/-- What exports of one exporter hand on: the writer, the files, and when they are cancelled. -/
structure Session where
  writer : Relation.Writer
  files : File.Tree
  cancellation : Cancellation := .never

/-- What comes of an export: its result, what the next one goes on with, and the requests made. -/
structure Outcome where
  result : Except Failure Result
  session : Session
  requests : List Request

/-- The result of a run whose files are closed. -/
def Result.completed (r : Result) (writer : Relation.Writer) (time : Time.Timestamp) : Result :=
  { r with
    relations := r.relations.map fun e =>
      (e.1, { e.2 with filePath := some (writer.path e.2.name).text })
    completedAt := some time }

/-- Export a collection. The files are closed even if the export ends early. -/
def Exporter.export (e : Exporter) (order : Order) (period : Time.Period) (session : Session) :
    Outcome :=
  match order.settings with
  | .error f => ⟨.error (.order f), session, []⟩
  | .ok settings =>
    let relation := Relation.sanitize settings.collection
    let ctx : Context := ⟨e.store, e.hooks, settings, period⟩
    let begun : Result := { collection := settings.collection, startedAt := some period.start }
    let (outcome, s) := (exportCollection ctx relation).run.run
      { result := begun.ensure relation 0 none
        writer := session.writer.reset
        files := session.files
        requests := []
        cancellation := session.cancellation }
    let (closed, files) := s.writer.finalize s.files (Keyed.keys s.result.relations)
    let requests := s.requests.reverse
    match outcome, closed with
    | _, .error f => ⟨.error (.write f), ⟨s.writer, files, s.cancellation⟩, requests⟩
    | .error f, .ok writer => ⟨.error (.write f), ⟨writer, files, s.cancellation⟩, requests⟩
    | .ok (), .ok writer =>
      ⟨.ok (s.result.completed writer period.stop), ⟨writer, files, s.cancellation⟩, requests⟩

/-- An order that is refused changes nothing. -/
theorem export_of_refused {e : Exporter} {order : Order} {period : Time.Period} {session : Session}
    {f : OrderError} (h : order.settings = .error f) :
    e.export order period session = ⟨.error (.order f), session, []⟩ := by
  simp [Exporter.export, h]

end BackendMigration.Export
