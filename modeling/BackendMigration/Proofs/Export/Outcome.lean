import BackendMigration.Export.Exporter
import BackendMigration.Proofs.Export.Step
import BackendMigration.Proofs.Relation.Run

/-! An export as the run of its walk between a beginning and an end. -/
namespace BackendMigration.Export

variable {settings : Settings}

/-- What an export begins with. -/
def State.initial (s : Settings) (period : Time.Period) (session : Session) : State where
  result := ({ collection := s.collection, startedAt := some period.start } : Result).ensure
    (Relation.sanitize s.collection) 0 none
  writer := session.writer.reset
  files := session.files
  requests := []
  cancellation := session.cancellation

/-- The end of an export, after a walk that came to an end or stopped early. -/
def ended (period : Time.Period) (run : Except Relation.WriteError Unit × State) : Outcome :=
  let (closed, files) := run.2.writer.finalize run.2.files (Keyed.keys run.2.result.relations)
  let requests := run.2.requests.reverse
  match run.1, closed with
  | _, .error f => ⟨.error (.write f), ⟨run.2.writer, files, run.2.cancellation⟩, requests⟩
  | .error f, .ok writer => ⟨.error (.write f), ⟨writer, files, run.2.cancellation⟩, requests⟩
  | .ok (), .ok writer =>
    ⟨.ok (run.2.result.completed writer period.stop), ⟨writer, files, run.2.cancellation⟩, requests⟩

theorem Exporter.export_eq_ended {e : Exporter} {order : Order} {period : Time.Period}
    {session : Session} (ho : order.settings = .ok settings) :
    e.export order period session = ended period ((exportCollection ⟨e.store, e.hooks, settings, period⟩
      (Relation.sanitize settings.collection)).run.run (.initial settings period session)) := by
  unfold Exporter.export
  rw [ho]
  rfl

theorem Exporter.export_eq {e : Exporter} {order : Order} {period : Time.Period} {session : Session}
    {s : State} {writer : Relation.Writer} {files : File.Tree} (ho : order.settings = .ok settings)
    (hrun : Step.Runs (exportCollection ⟨e.store, e.hooks, settings, period⟩
      (Relation.sanitize settings.collection)) (.initial settings period session) () s)
    (hclose : s.writer.finalize s.files (Keyed.keys s.result.relations) = (.ok writer, files)) :
    e.export order period session = ⟨.ok (s.result.completed writer period.stop),
      ⟨writer, files, s.cancellation⟩, s.requests.reverse⟩ := by
  have hrun' : (exportCollection ⟨e.store, e.hooks, settings, period⟩
      (Relation.sanitize settings.collection)).run.run (.initial settings period session) =
        (.ok (), s) := hrun
  rw [export_eq_ended ho, hrun']
  simp only [ended, hclose]

theorem Result.keys_completed (result : Result) (writer : Relation.Writer) (time : Time.Timestamp) :
    Keyed.keys (result.completed writer time).relations = Keyed.keys result.relations := by
  simp only [completed, Keyed.keys, List.map_map]
  rfl

/-- The files of relations are closed: there is a result, or a record is at fault. -/
def Outcome.IsClosed (o : Outcome) : Prop :=
  match o.result with
  | .ok _ => True
  | .error (.write e) => e.isOfRecord = true
  | .error (.order _) => False

theorem Outcome.isClosed_of_ok {o : Outcome} {result : Result} (h : o.result = .ok result) :
    o.IsClosed := by
  rw [IsClosed, h]
  trivial

instance (o : Outcome) : Decidable o.IsClosed :=
  match h : o.result with
  | .ok _ => .isTrue (by simp [Outcome.IsClosed, h])
  | .error (.write e) => decidable_of_iff (e.isOfRecord = true) (by simp [Outcome.IsClosed, h])
  | .error (.order _) => .isFalse (by simp [Outcome.IsClosed, h])

/-- The state at the end of the walk of an export. -/
def Exporter.walked (e : Exporter) (settings : Settings) (period : Time.Period) (session : Session) :
    State :=
  ((exportCollection ⟨e.store, e.hooks, settings, period⟩
    (Relation.sanitize settings.collection)).run.run (.initial settings period session)).2

/-- The walk of an export comes to its end: no record of a document fails to be written. -/
def Exporter.IsThrough (e : Exporter) (settings : Settings) (period : Time.Period)
    (session : Session) : Prop :=
  Step.Runs (exportCollection ⟨e.store, e.hooks, settings, period⟩
    (Relation.sanitize settings.collection)) (.initial settings period session) ()
    (e.walked settings period session)

theorem Exporter.exists_finalize_of_isClosed {e : Exporter} {order : Order} {period : Time.Period}
    {session : Session} (ho : order.settings = .ok settings)
    (h : (e.export order period session).IsClosed) :
    ∃ writer, (e.walked settings period session).writer.finalize
        (e.walked settings period session).files
        (Keyed.keys (e.walked settings period session).result.relations) =
          (.ok writer, (e.export order period session).session.files) ∧
      ∀ result, (e.export order period session).result = .ok result →
        result = (e.walked settings period session).result.completed writer period.stop := by
  rw [export_eq_ended ho] at h ⊢
  unfold walked
  generalize (exportCollection ⟨e.store, e.hooks, settings, period⟩
    (Relation.sanitize settings.collection)).run.run (.initial settings period session) = run at h ⊢
  obtain ⟨outcome, s⟩ := run
  unfold ended at h ⊢
  dsimp only at h ⊢
  cases hclose : s.writer.finalize s.files (Keyed.keys s.result.relations) with
  | mk closed files =>
    rw [hclose] at h
    cases closed with
    | error f =>
      have hfault : f.isOfRecord = true := by cases outcome <;> exact h
      rw [BackendMigration.Relation.isOfRecord_of_finalize hclose] at hfault
      cases hfault
    | ok writer =>
      cases outcome with
      | error f => exact ⟨writer, rfl, fun result h => (nomatch h)⟩
      | ok =>
        refine ⟨writer, rfl, fun result h => ?_⟩
        cases h
        rfl

theorem Exporter.requests_export {e : Exporter} {order : Order} {period : Time.Period}
    {session : Session} (ho : order.settings = .ok settings) :
    (e.export order period session).requests = (e.walked settings period session).requests.reverse := by
  rw [export_eq_ended ho]
  unfold walked ended
  dsimp only
  split <;> rfl

/-- The walk of an export that has a result comes to its end. -/
theorem Exporter.runs_of_result {e : Exporter} {order : Order} {period : Time.Period}
    {session : Session} {result : Result} (ho : order.settings = .ok settings)
    (h : (e.export order period session).result = .ok result) :
    Step.Runs (exportCollection ⟨e.store, e.hooks, settings, period⟩
        (Relation.sanitize settings.collection)) (.initial settings period session) ()
        (e.walked settings period session) ∧
      (e.export order period session).requests = (e.walked settings period session).requests.reverse ∧
      result.errors = (e.walked settings period session).result.errors := by
  rw [export_eq_ended ho] at h ⊢
  unfold Step.Runs walked
  generalize (exportCollection ⟨e.store, e.hooks, settings, period⟩
    (Relation.sanitize settings.collection)).run.run (.initial settings period session) = run at h ⊢
  obtain ⟨outcome, s⟩ := run
  unfold ended at h ⊢
  dsimp only at h ⊢
  cases hclose : s.writer.finalize s.files (Keyed.keys s.result.relations) with
  | mk closed files =>
    rw [hclose] at h
    cases outcome with
    | error f => cases closed <;> cases h
    | ok =>
      cases closed with
      | error f => cases h
      | ok writer =>
        cases h
        exact ⟨rfl, rfl, rfl⟩

end BackendMigration.Export
