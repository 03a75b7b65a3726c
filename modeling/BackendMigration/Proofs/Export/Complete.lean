import BackendMigration.Export.Action
import BackendMigration.Proofs.Export.Outcome
import BackendMigration.Proofs.Export.Steady
import BackendMigration.Proofs.Export.Step
import BackendMigration.Proofs.Relation.Log

/-! What an export tells of its relations is what their files hold, whatever comes of its records. -/
namespace BackendMigration.Export

open BackendMigration.Relation (Log sanitize)

/-- The writes of an export so far, and what its result tells of them: each relation counts the
records that were written to it. -/
structure Accounts (session : Session) (attempts : List (String × Document.Value)) (s : State) :
    Prop where
  writer : s.writer = (Log.run session.writer session.files attempts).writer
  files : s.files = (Log.run session.writer session.files attempts).files
  attempted : ∀ a ∈ attempts, sanitize a.1 = a.1
  begun : Keyed.keys s.result.relations ≠ []
  known : ∀ a ∈ (Log.run session.writer session.files attempts).written,
    a.1 ∈ Keyed.keys s.result.relations
  entries : ∀ e ∈ s.result.relations, e.2.name = e.1 ∧ sanitize e.1 = e.1 ∧
    e.2.count = ((Log.run session.writer session.files attempts).writtenTo e.1).length

/-- The writes so far are accounted for. -/
def Accounted (session : Session) (s : State) : Prop := ∃ attempts, Accounts session attempts s

variable {session : Session} {attempts : List (String × Document.Value)} {s s' : State}
  {ctx : Context} {relation : String} {value : Document.Value}

theorem Accounts.of_eq (h : Accounts session attempts s) (hw : s'.writer = s.writer)
    (hf : s'.files = s.files) (hr : s'.result.relations = s.result.relations) :
    Accounts session attempts s' :=
  ⟨hw.trans h.writer, hf.trans h.files, h.attempted, by rw [hr]; exact h.begun,
    by rw [hr]; exact h.known, by rw [hr]; exact h.entries⟩

theorem Accounts.with_cancellation (h : Accounts session attempts s) (c : Cancellation) :
    Accounts { session with cancellation := c } attempts s :=
  ⟨h.writer, h.files, h.attempted, h.begun, h.known, h.entries⟩

/-- A relation that is new has no records yet. -/
theorem Accounts.ensure (h : Accounts session attempts s) (hr : sanitize relation = relation)
    (depth : Int) (parent : Option String) :
    Accounts session attempts { s with result := s.result.ensure relation depth parent } := by
  refine ⟨h.writer, h.files, h.attempted, ?_, fun a ha => ?_, fun e he => ?_⟩
  · exact List.ne_nil_of_mem (Result.mem_keys_ensure.2 (.inr rfl))
  · exact Result.mem_keys_ensure.2 (.inl (h.known a ha))
  · rcases Result.mem_ensure he with he | ⟨rfl, hnew⟩
    · exact h.entries e he
    · have hnone : (Log.run session.writer session.files attempts).writtenTo relation = [] := by
        refine Log.writtenTo_eq_nil_iff.2 fun hmem => hnew ?_
        obtain ⟨a, ha, rfl⟩ := List.mem_map.1 hmem
        exact h.known a ha
      exact ⟨rfl, hr, by rw [hnone]; rfl⟩

/-- A record that is written is counted, and one that is not is not. -/
theorem Accounts.storeRecord (h : Accounts session attempts s) (hr : sanitize relation = relation)
    (depth : Int) (value : Document.Value) : Accounts session (attempts ++ [(relation, value)])
      ((storeRecord relation depth value).run.run s).2 := by
  have hattempted : ∀ a ∈ attempts ++ [(relation, value)], sanitize a.1 = a.1 := by
    intro a ha
    rcases List.mem_append.1 ha with ha | ha
    · exact h.attempted a ha
    · rw [List.mem_singleton.1 ha]
      exact hr
  rw [Step.run_storeRecord]
  cases hwrite : s.writer.write s.files relation value with
  | mk outcome t =>
    rw [h.writer, h.files] at hwrite
    cases outcome with
    | error e =>
      have hlog := Log.attempt_of_error (a := (relation, value)) hwrite
      refine ⟨?_, ?_, hattempted, h.begun, ?_, ?_⟩ <;> rw [Log.run_concat, hlog]
      · exact h.writer
      · exact h.known
      · exact h.entries
    | ok w =>
      have hlog := Log.attempt_of_ok (a := (relation, value)) hwrite
      have hensured := h.ensure hr depth none
      have hkeys := Result.keys_addCount (s.result.ensure relation depth none) relation 1
      refine ⟨?_, ?_, hattempted, by rw [hkeys]; exact hensured.begun, ?_, ?_⟩ <;>
        rw [Log.run_concat, hlog]
      · intro a ha
        rw [hkeys, Result.mem_keys_ensure]
        rcases List.mem_append.1 ha with ha | ha
        · exact .inl (h.known a ha)
        · exact .inr (by rw [List.mem_singleton.1 ha])
      · intro e he
        obtain ⟨f, hf, rfl⟩ := Result.exists_of_mem_addCount he
        obtain ⟨hname, hsanitized, hcount⟩ := hensured.entries f hf
        refine ⟨hname, hsanitized, ?_⟩
        rw [Log.writtenTo, Log.writtenTo_concat, List.length_append]
        dsimp only
        rw [hcount]
        split <;> simp [Log.writtenTo]

theorem keeps_storeRecord (hr : sanitize relation = relation) (depth : Int) (value : Document.Value) :
    Step.Keeps (Accounted session) (storeRecord relation depth value) :=
  fun _ ⟨_, h⟩ => ⟨_, h.storeRecord hr depth value⟩

theorem keeps_emitAll (emissions : List (String × Document.Value)) :
    Step.Keeps (Accounted session) (emitAll emissions) := by
  induction emissions with
  | nil => exact .pure _
  | cons a rest ih =>
    unfold emitAll
    have hemit : Step.Keeps (Accounted session) (emit a.1 a.2) :=
      keeps_storeRecord (BackendMigration.Relation.sanitize_sanitize _) 0 a.2
    refine (Step.Keeps.tryCatch (hemit.bind fun _ => .pure _) fun e => .pure _).bind fun outcome => ?_
    cases outcome with
    | ok => exact ih
    | error e => exact .pure _

theorem keeps_applyHook (ctx : Context) (relation : String) (record : Document.Entries) :
    Step.Keeps (Accounted session) (applyHook ctx relation record) := by
  unfold applyHook
  split
  · exact .pure _
  · dsimp only
    refine (keeps_emitAll _).bind fun outcome => ?_
    cases outcome with
    | ok => exact .pure _
    | error e => exact .pure _

theorem keeps_updateResult {f : Result → Result} (h : ∀ r, (f r).relations = r.relations) :
    Step.Keeps (Accounted session) (updateResult f) :=
  fun s ⟨attempts, hs⟩ => ⟨attempts, hs.of_eq rfl rfl (h s.result)⟩

/-- Whether a document is written, dropped, met before or its hook fails. -/
theorem keeps_writeRecord (hr : sanitize relation = relation) (record : Document.Entries)
    (key : String) (depth : Nat) :
    Step.Keeps (Accounted session) (writeRecord ctx relation record key depth) := by
  have hmeet : Step.Keeps (Accounted session) (meet relation key) := by
    rintro s ⟨attempts, hs⟩
    rw [Step.run_meet]
    split
    · exact ⟨attempts, hs⟩
    · exact ⟨attempts, hs.of_eq rfl rfl rfl⟩
  rw [Step.writeRecord_eq]
  refine hmeet.bind fun isNew => ?_
  cases isNew with
  | false =>
    refine Step.Keeps.bind ?_ fun _ => .pure _
    exact keeps_updateResult fun _ => rfl
  | true =>
    refine (keeps_applyHook ctx relation record).bind fun outcome => ?_
    cases outcome with
    | fail message =>
      refine Step.Keeps.bind ?_ fun _ => .pure _
      exact keeps_updateResult fun _ => rfl
    | drop =>
      refine Step.Keeps.bind ?_ fun _ => .pure _
      exact keeps_updateResult fun _ => rfl
    | keep value => exact (keeps_storeRecord hr depth value).bind fun _ => .pure _

theorem steady_accounted (ctx : Context) (session : Session) : Steady ctx (Accounted session) where
  asked := fun _ ⟨attempts, hs⟩ => ⟨attempts, hs.of_eq rfl rfl rfl⟩
  cancelled := keeps_updateResult fun _ => rfl
  requested := fun _ _ ⟨attempts, hs⟩ => ⟨attempts, hs.of_eq rfl rfl rfl⟩
  noted := fun _ _ => keeps_updateResult fun _ => rfl
  opened := fun _ _ _ ⟨attempts, hs⟩ =>
    ⟨attempts, hs.ensure (BackendMigration.Relation.sanitize_sanitize _) _ _⟩
  written := fun _ record _ hr _ => keeps_writeRecord hr record _ _

/-! The end of an export. -/

/-- The files of relations hold the records that were written to them in a run, and every other file
is as it was when the directory was made, or empty because it was opened for a record without
bytes. -/
def Complete (session : Session) (log : Log) (relations : List String) (files : File.Tree) : Prop :=
  (∀ a ∈ log.written, a.1 ∈ relations) ∧
    ∃ base place, session.files.makeDirectories session.writer.directory = .ok base ∧
      base.resolve session.writer.directory = .ok place ∧
      log.Finished session.writer base place relations files

theorem Accounts.sanitized (h : Accounts session attempts s) :
    ∀ r ∈ Keyed.keys s.result.relations, sanitize r = r := by
  intro r hr
  obtain ⟨e, he, rfl⟩ := List.mem_map.1 hr
  exact (h.entries e he).2.1

theorem Accounts.complete (h : Accounts session attempts s)
    {writer : Relation.Writer} {files : File.Tree}
    (hclose : s.writer.finalize s.files (Keyed.keys s.result.relations) = (.ok writer, files)) :
    writer.directory = session.writer.directory ∧
      Complete session (Log.run session.writer session.files attempts)
        (Keyed.keys s.result.relations) files := by
  rw [h.writer, h.files] at hclose
  obtain ⟨base, place, hbase, hplace, hdirectory, hfinished⟩ :=
    Log.finished_of_finalize h.attempted h.begun h.sanitized h.known hclose
  exact ⟨hdirectory, h.known, base, place, hbase, hplace, hfinished⟩

theorem accounts_initial (settings : Settings) (period : Time.Period) (session : Session) :
    Accounts session [] (.initial settings period session) := by
  have hsanitized := BackendMigration.Relation.sanitize_sanitize settings.collection
  refine ⟨rfl, rfl, fun a ha => absurd ha List.not_mem_nil, List.cons_ne_nil _ _,
    fun a ha => absurd ha List.not_mem_nil, fun e he => ?_⟩
  obtain rfl : e = (sanitize settings.collection, { name := sanitize settings.collection }) :=
    List.mem_singleton.1 he
  exact ⟨rfl, hsanitized, rfl⟩

/-- An export tells of each relation how many records were written to it in its run. Its files hold
these records, also where it fails because of a record, and no other file holds any. -/
structure Outcome.Accounts (session : Session) (o : Outcome) : Prop where
  completed : ∀ result, o.result = .ok result → ∃ attempts,
    Complete session (Log.run session.writer session.files attempts) (Keyed.keys result.relations)
      o.session.files ∧
    ∀ e ∈ result.relations,
      e.2.count = ((Log.run session.writer session.files attempts).writtenTo e.1).length ∧
      e.2.filePath = some (session.writer.path e.1).text
  failed : ∀ e, o.result = .error (.write e) → e.isOfRecord = true → ∃ attempts relations,
    Complete session (Log.run session.writer session.files attempts) relations o.session.files

theorem exists_complete_of_isClosed {e : Exporter} {order : Order} {settings : Settings}
    {period : Time.Period} {session : Session} (ho : order.settings = .ok settings)
    (h : (e.export order period session).IsClosed)
    (haccounts : Accounts session attempts (e.walked settings period session)) :
    Complete session (Log.run session.writer session.files attempts)
        (Keyed.keys (e.walked settings period session).result.relations)
        (e.export order period session).session.files ∧
      ∀ result, (e.export order period session).result = .ok result →
        Keyed.keys result.relations =
          Keyed.keys (e.walked settings period session).result.relations ∧
        ∀ f ∈ result.relations,
          f.2.count = ((Log.run session.writer session.files attempts).writtenTo f.1).length ∧
          f.2.filePath = some (session.writer.path f.1).text := by
  obtain ⟨writer, hclose, hresult⟩ := Exporter.exists_finalize_of_isClosed ho h
  obtain ⟨hdirectory, hcomplete⟩ := haccounts.complete hclose
  refine ⟨hcomplete, fun result hr => ?_⟩
  rw [hresult result hr]
  refine ⟨Result.keys_completed _ _ _, fun f hf => ?_⟩
  obtain ⟨g, hg, rfl⟩ := List.mem_map.1 hf
  obtain ⟨hname, -, hcount⟩ := haccounts.entries g hg
  refine ⟨hcount, ?_⟩
  dsimp only
  rw [hname, Relation.path_eq hdirectory]

/-- A relation of which there are records from an earlier export. -/
def earlierNotes : Session where
  writer := ⟨⟨false, ["out"]⟩, some 2, [], false⟩
  files := ⟨[(⟨false, ["out"]⟩, .directory),
    (⟨false, ["out", "notes.json"]⟩, .ofText "[\n\x7b\x7d\n]\n".toList)]⟩

/-- A hook adds a record to them that has half of a pair. -/
def emissionOfHalf : Outcome :=
  let half : Document.Value := .map [(.text "a", .text (String.ofList [Text.unitChar 0xD800]))]
  (Exporter.mk (.ofCollections [("users", [⟨"ada", []⟩])] [] [] false)
    [("users", Hook.ofActions [.emit "notes" half])]).export
    { collection := "users" } ⟨⟨⟨2024, 5, 1⟩, {}, some 0⟩, ⟨⟨2024, 5, 1⟩, {}, some 0⟩⟩ earlierNotes

end BackendMigration.Export
