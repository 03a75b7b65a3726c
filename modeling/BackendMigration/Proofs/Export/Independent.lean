import BackendMigration.Proofs.Export.Complete
import BackendMigration.Proofs.Export.Inherited
import BackendMigration.Proofs.Export.Telling
import BackendMigration.Proofs.Relation.Beside

/-! An export does not depend on the exports before it, nor on what they left behind. -/
namespace BackendMigration.Export

open BackendMigration.Relation (Beside FilledBoth HoldBoth Holds Log Obstructed eq_jsonFile_of_resolve
  lasting_obstructed sanitize slash_not_mem_of_sanitize)
open File (Path)
open File.Tree

/-! Steps side by side, as long as nothing comes between. -/

/-- In related states a step ends alike, and the states are related again, unless in the second one
something has come about that lasts. -/
structure Step.AgreesUnless (B : State → Prop) (R : State → State → Prop) (α : Type) (m : Step α) :
    Prop where
  kept : Step.Keeps B m
  agrees : ∀ s s', R s s' → B (m.run.run s').2 ∨
    (m.run.run s).1 = (m.run.run s').1 ∧ R (m.run.run s).2 (m.run.run s').2

namespace Step.AgreesUnless

variable {α β : Type} {B : State → Prop} {R : State → State → Prop}

theorem pure (a : α) : AgreesUnless B R α (pure a) := ⟨.pure a, fun _ _ h => .inr ⟨rfl, h⟩⟩

theorem bind {m : Step α} {f : α → Step β} (hm : AgreesUnless B R α m)
    (hf : ∀ a, AgreesUnless B R β (f a)) : AgreesUnless B R β (m >>= f) := by
  refine ⟨hm.kept.bind fun a => (hf a).kept, fun s s' hs => ?_⟩
  have h := hm.agrees s s' hs
  rw [run_bind, run_bind]
  generalize m.run.run s = run at h ⊢
  generalize m.run.run s' = run' at h ⊢
  obtain ⟨outcome, t⟩ := run
  obtain ⟨outcome', t'⟩ := run'
  rcases h with hb | ⟨rfl, hr⟩
  · left
    cases outcome' with
    | error e => exact hb
    | ok a => exact (hf a).kept t' hb
  · cases outcome with
    | error e => exact .inr ⟨rfl, hr⟩
    | ok a => exact (hf a).agrees t t' hr

theorem tryCatch {m : Step α} {handle : Relation.WriteError → Step α} (hm : AgreesUnless B R α m)
    (hh : ∀ e, AgreesUnless B R α (handle e)) : AgreesUnless B R α (tryCatch m handle) := by
  refine ⟨hm.kept.tryCatch fun e => (hh e).kept, fun s s' hs => ?_⟩
  have h := hm.agrees s s' hs
  rw [run_tryCatch, run_tryCatch]
  generalize m.run.run s = run at h ⊢
  generalize m.run.run s' = run' at h ⊢
  obtain ⟨outcome, t⟩ := run
  obtain ⟨outcome', t'⟩ := run'
  rcases h with hb | ⟨rfl, hr⟩
  · left
    cases outcome' with
    | error e => exact (hh e).kept t' hb
    | ok a => exact hb
  · cases outcome with
    | error e => exact (hh e).agrees t t' hr
    | ok a => exact .inr ⟨rfl, hr⟩

end Step.AgreesUnless

/-! Two exports to two trees. -/

variable {run : Relation.Writer} {base bare : File.Tree} {place : File.Path} {s s' : State}

/-- Two exports have done the same, each to its own tree. -/
structure Parallel (run : Relation.Writer) (base bare : File.Tree) (place : File.Path) (s s' : State) :
    Prop where
  result : s.result = s'.result
  writer : s.writer = s'.writer
  requests : s.requests = s'.requests
  cancellation : s.cancellation = s'.cancellation
  held : HoldBoth run base bare place s.writer s.files s'.files

/-- Two exports take a step alike, unless the second one makes a file where the first one has a
directory. -/
abbrev Step.Parallels (run : Relation.Writer) (base bare : File.Tree) (place : File.Path) :
    ∀ α : Type, Step α → Prop :=
  Step.AgreesUnless (fun s => Obstructed run base place s.files) (Parallel run base bare place)

namespace Parallel

/-- A step that leaves the files alone. -/
theorem agrees_of_files {α : Type} {m : Step α} (hfiles : ∀ s, (m.run.run s).2.files = s.files)
    (h : ∀ s s', Parallel run base bare place s s' →
      (m.run.run s).1 = (m.run.run s').1 ∧
        Parallel run base bare place (m.run.run s).2 (m.run.run s').2) :
    Step.Parallels run base bare place α m := by
  refine ⟨fun s hs => ?_, fun s s' hs => .inr (h s s' hs)⟩
  rw [hfiles]
  exact hs

theorem storeRecord (hbeside : Beside run base bare place) {relation : String}
    (hr : sanitize relation = relation) (depth : Int) (value : Document.Value) :
    Step.Parallels run base bare place Unit (storeRecord relation depth value) := by
  have hfiles (s : State) : ((Export.storeRecord relation depth value).run.run s).2.files =
      (s.writer.write s.files relation value).2 := by
    rw [Step.run_storeRecord]
    rcases s.writer.write s.files relation value with ⟨_ | _, t⟩ <;> rfl
  refine ⟨fun s hs => ?_, fun s s' hs => ?_⟩
  · rw [hfiles]
    exact s.writer.lasting_write (lasting_obstructed run base place) hs relation value
  · obtain ⟨result, w, files, requests, cancellation⟩ := s
    obtain ⟨result', w', files', requests', cancellation'⟩ := s'
    obtain ⟨rfl, rfl, rfl, rfl, hheld⟩ := hs
    have hwrite := hbeside.write hheld hr value
    rw [hfiles ⟨result, w, files', requests, cancellation⟩]
    rcases hwrite with hobstructed | ⟨hfst, hwritten⟩
    · exact .inl hobstructed
    · right
      rw [Step.run_storeRecord, Step.run_storeRecord]
      dsimp only at hfst hwritten ⊢
      generalize w.write files relation value = written at hfst hwritten ⊢
      generalize w.write files' relation value = written' at hfst hwritten ⊢
      obtain ⟨outcome, t⟩ := written
      obtain ⟨outcome', t'⟩ := written'
      obtain rfl : outcome = outcome' := hfst
      cases outcome with
      | error e => exact ⟨rfl, rfl, rfl, rfl, rfl, hwritten⟩
      | ok w₁ => exact ⟨rfl, rfl, rfl, rfl, rfl, hwritten⟩

theorem meet (relation key : String) :
    Step.Parallels run base bare place Bool (meet relation key) := by
  apply agrees_of_files
  · intro s
    rw [Step.run_meet]
    split <;> rfl
  · intro s s' hs
    rw [Step.run_meet, Step.run_meet, hs.result]
    split
    · exact ⟨rfl, hs⟩
    · exact ⟨rfl, by rw [State.met, State.met, hs.result], hs.writer, hs.requests, hs.cancellation,
        hs.held⟩

/-- Only a record that is written can tell two exports apart. -/
theorem inherited (hbeside : Beside run base bare place) :
    Step.Inherited (Step.Parallels run base bare place) where
  pure := .pure
  bind := .bind
  tryCatch := .tryCatch
  asked := by
    refine agrees_of_files (fun _ => rfl) fun s s' hs => ?_
    have hask := congrArg Cancellation.ask hs.cancellation
    have houtcome := congrArg (fun a => (Except.ok a.1 : Except Relation.WriteError Bool)) hask
    exact ⟨houtcome, hs.result, hs.writer, hs.requests, congrArg Prod.snd hask, hs.held⟩
  updated := fun f => agrees_of_files (fun _ => rfl) fun s s' hs =>
    ⟨rfl, congrArg f hs.result, hs.writer, hs.requests, hs.cancellation, hs.held⟩
  requested := fun request => agrees_of_files (fun _ => rfl) fun s s' hs =>
    ⟨rfl, hs.result, hs.writer, congrArg (request :: ·) hs.requests, hs.cancellation, hs.held⟩
  met := meet
  stored := fun _ depth value hr => storeRecord hbeside hr depth value

end Parallel

/-! What an export leaves behind. -/

variable {session : Session} {w : Relation.Writer} {order : Order} {period : Time.Period}

theorem session_ended (period : Time.Period) (run : Except Relation.WriteError Unit × State)
    {closed : Except Relation.WriteError Relation.Writer} {t : File.Tree}
    (h : run.2.writer.finalize run.2.files (Keyed.keys run.2.result.relations) = (closed, t)) :
    (ended period run).session.files = t ∧
      (ended period run).session.writer.directory = run.2.writer.directory ∧
      (ended period run).session.writer.indent = run.2.writer.indent := by
  obtain ⟨outcome, s⟩ := run
  unfold ended
  dsimp only at h ⊢
  rw [h]
  cases closed with
  | error f => cases outcome <;> exact ⟨rfl, rfl, rfl⟩
  | ok writer =>
    rw [BackendMigration.Relation.eq_of_finalize h]
    cases outcome <;> exact ⟨rfl, rfl, rfl⟩

/-- Whatever comes of an export, it only writes files of relations. -/
theorem exists_filled_export {settings : Settings} (e : Exporter) (period : Time.Period)
    (session : Session) (ho : order.settings = .ok settings)
    (hbase : session.files.makeDirectories session.writer.directory = .ok base)
    (hplace : base.resolve session.writer.directory = .ok place) :
    (∃ texts, Filled base place texts (e.export order period session).session.files) ∧
      (e.export order period session).session.writer.directory = session.writer.directory ∧
      (e.export order period session).session.writer.indent = session.writer.indent := by
  obtain ⟨attempts, haccounts⟩ := (steady_accounted ⟨e.store, e.hooks, settings, period⟩
    session).exportCollection _ ⟨[], accounts_initial settings period session⟩
  have hholds := (Log.sound_run hbase hplace haccounts.attempted).holds
  rw [← haccounts.writer, ← haccounts.files] at hholds
  obtain ⟨closed, u, -, -, hfilled, hend⟩ := hholds.finalize_cases hplace
    (isDirectory_of_makeDirectories hbase) (fun _ => haccounts.begun)
    fun r hr => slash_not_mem_of_sanitize (haccounts.sanitized r hr)
  have hfinal : ∃ outcome, _ = (outcome, u) :=
    hend.elim (fun hok => ⟨_, hok.1⟩) fun ⟨f, hf⟩ => ⟨_, hf⟩
  obtain ⟨outcome, hfinal⟩ := hfinal
  obtain ⟨hfiles, hdirectory, hindent⟩ := session_ended period _ hfinal
  rw [Exporter.export_eq_ended ho]
  refine ⟨?_, hdirectory.trans hholds.directory_eq, hindent.trans hholds.indent_eq⟩
  rw [hfiles]
  exact ⟨_, hfilled⟩

/-- A session is ready for exports of a writer: its directory can be made, and then it has the
directories of a given tree. -/
structure Session.Ready (w : Relation.Writer) (base : File.Tree) (s : Session) : Prop where
  directory_eq : s.writer.directory = w.directory
  indent_eq : s.writer.indent = w.indent
  made : ∃ t, s.files.makeDirectories w.directory = .ok t ∧ KeepsDirectories base t ∧
    KeepsDirectories t base

/-- Whatever comes of an export, the next one finds the same directories. -/
theorem Session.Ready.export (h : session.Ready w base) (e : Exporter) (order : Order)
    (period : Time.Period) : (e.export order period session).session.Ready w base := by
  cases ho : order.settings with
  | error f =>
    rw [export_of_refused ho]
    exact h
  | ok settings =>
    obtain ⟨t, hm, hkeeps, hkeeps'⟩ := h.made
    rw [← h.directory_eq] at hm
    have hb := isDirectory_of_makeDirectories hm
    obtain ⟨place, hplace, -⟩ := isDirectory_iff.1 hb
    obtain ⟨⟨texts, hfilled⟩, hdirectory, hindent⟩ :=
      exists_filled_export e period session ho hm hplace
    have hmade := makeDirectories_of_isDirectory (isDirectory_of_keeps hfilled.directories hb)
    rw [h.directory_eq] at hmade
    exact ⟨hdirectory.trans h.directory_eq, hindent.trans h.indent_eq, _, hmade,
      fun p hp => hfilled.directories p (hkeeps p hp),
      fun p hp => hkeeps' p (hfilled.keepsDirectories p hp)⟩

/-! An export that begins anew. -/

/-- A session with a new writer for the same directory, and with other files. -/
def Session.anew (s : Session) (files : File.Tree) : Session where
  writer := ⟨s.writer.directory, s.writer.indent, [], false⟩
  files := files
  cancellation := s.cancellation

/-- An export ends as another one does, with the same requests, and it leaves the same bytes in the file
of every relation of which the other one leaves a file; those of its result are among them. -/
structure Outcome.Repeats (w : Relation.Writer) (o fresh : Outcome) : Prop where
  result : o.result = fresh.result
  requests : o.requests = fresh.requests
  read : ∀ r, sanitize r = r → fresh.session.files.isFile (w.path r) = true →
    o.session.files.read (w.path r) = fresh.session.files.read (w.path r)
  isFile : ∀ result, fresh.result = .ok result → ∀ r ∈ Keyed.keys result.relations,
    fresh.session.files.isFile (w.path r) = true

variable {settings : Settings} {e : Exporter} {files : File.Tree}

theorem Parallel.initial (settings : Settings) (period : Time.Period)
    (hbase : session.files.makeDirectories session.writer.directory = .ok base)
    (hbare : files.makeDirectories session.writer.directory = .ok bare) :
    Parallel session.writer base bare place (.initial settings period session)
      (.initial settings period (session.anew files)) :=
  ⟨rfl, rfl, rfl, rfl, _, [], Holds.begin hbase, Holds.begin hbare⟩

/-- Two exports that have done the same end alike, if their files can be closed in both trees or in none
of them. -/
theorem Parallel.ended {walk walk' : Except Relation.WriteError Unit × State} (hfst : walk.1 = walk'.1)
    (h : Parallel run base bare place walk.2 walk'.2)
    (hclose : (walk.2.writer.finalize walk.2.files (Keyed.keys walk.2.result.relations)).1 =
      (walk.2.writer.finalize walk'.2.files (Keyed.keys walk.2.result.relations)).1) :
    (ended period walk).result = (ended period walk').result ∧
      (ended period walk).requests = (ended period walk').requests := by
  obtain ⟨outcome, result, w, files, requests, cancellation⟩ := walk
  obtain ⟨outcome', result', w', files', requests', cancellation'⟩ := walk'
  obtain ⟨rfl, rfl, rfl, rfl, -⟩ := h
  obtain rfl : outcome = outcome' := hfst
  unfold Export.ended
  dsimp only at hclose ⊢
  generalize w.finalize files _ = closed at hclose ⊢
  generalize w.finalize files' _ = closed' at hclose ⊢
  obtain ⟨writer, t⟩ := closed
  obtain ⟨writer', t'⟩ := closed'
  obtain rfl : writer = writer' := hclose
  cases writer with
  | error f => cases outcome <;> exact ⟨rfl, rfl⟩
  | ok w₁ => cases outcome <;> exact ⟨rfl, rfl⟩

theorem isFile_of_mem_relations {result : Result}
    (hresult : (e.export order period session).result = .ok result) {r : String}
    (hr : r ∈ Keyed.keys result.relations) :
    (e.export order period session).session.files.isFile (session.writer.path r) = true := by
  cases ho : order.settings with
  | error f =>
    rw [export_of_refused ho] at hresult
    cases hresult
  | ok settings =>
    have hread := (Exporter.isTold (e := e) ho period session).read_of_ok hresult hr
    unfold Relation.read readText at hread
    cases hbytes : (e.export order period session).session.files.read (session.writer.path r) with
    | error f =>
      rw [hbytes] at hread
      cases hread
    | ok bytes => exact isFile_of_read hbytes

section anew

variable (hbase : session.files.makeDirectories session.writer.directory = .ok base)
  (hbare : files.makeDirectories session.writer.directory = .ok bare)

include hbase hbare

/-- An export that begins anew in an empty directory makes a file in place of which the other tree has a
directory, or the exports end alike with the same files. -/
theorem obstructed_or_alike (e : Exporter) (period : Time.Period) (ho : order.settings = .ok settings)
    (hbeside : Beside session.writer base bare place) :
    Obstructed session.writer base place
        (e.export order period (session.anew files)).session.files ∨
      ((e.export order period session).result =
          (e.export order period (session.anew files)).result ∧
        (e.export order period session).requests =
          (e.export order period (session.anew files)).requests) ∧
      FilledBoth base bare place (e.export order period session).session.files
        (e.export order period (session.anew files)).session.files := by
  obtain ⟨attempts, haccounts⟩ := (steady_accounted ⟨e.store, e.hooks, settings, period⟩
    session).exportCollection _ ⟨[], accounts_initial settings period session⟩
  have hwalk := ((Parallel.inherited hbeside).exportCollection
    ⟨e.store, e.hooks, settings, period⟩).agrees _ _ (Parallel.initial settings period hbase hbare)
  rw [Exporter.export_eq_ended ho, Exporter.export_eq_ended ho]
  generalize (exportCollection _ _).run.run (.initial settings period session) = walk
    at haccounts hwalk ⊢
  generalize (exportCollection _ _).run.run (.initial settings period (session.anew files)) = walk'
    at hwalk ⊢
  obtain ⟨hfiles', -⟩ := session_ended period walk' rfl
  obtain ⟨hfiles, -⟩ := session_ended period walk rfl
  rw [hfiles, hfiles']
  rcases hwalk with hobstructed | ⟨hfst, hparallel⟩
  · exact .inl (walk'.2.writer.lasting_finalize (lasting_obstructed session.writer base place)
      hobstructed _)
  · have hfinal := hbeside.finalize hparallel.held haccounts.begun haccounts.sanitized
    rw [← hparallel.writer, ← hparallel.result]
    rcases hfinal with hobstructed | ⟨hclose, hboth⟩
    · exact .inl hobstructed
    · exact .inr ⟨hparallel.ended hfst hclose, hboth⟩

/-- An export does the same as one that begins anew in an empty directory, if no directory stands where
that one leaves a file. -/
theorem repeats_anew (hempty : bare.childNames session.writer.directory = [])
    (hfree : ∀ r, sanitize r = r →
      (e.export order period (session.anew files)).session.files.isFile (session.writer.path r) = true →
        base.isDirectory (session.writer.path r) = false) :
    (e.export order period session).Repeats session.writer
      (e.export order period (session.anew files)) := by
  have hbeside := Beside.of_childNames (isDirectory_of_makeDirectories hbase)
    (isDirectory_of_makeDirectories hbare) hempty
  cases ho : order.settings with
  | error f =>
    rw [export_of_refused ho, export_of_refused ho]
    refine ⟨rfl, rfl, fun r hr hfile => ?_, fun result h => (nomatch h)⟩
    have hnone := hbeside.isFile_eq_false (extends_makeDirectoriesFrom hbare) hr
    exact absurd hfile (Bool.eq_false_iff.1 hnone)
  | ok settings =>
    rcases obstructed_or_alike hbase hbare e period ho hbeside with
      ⟨r, hr, hoccupied, hstands⟩ | ⟨⟨hresult, hrequests⟩, hboth⟩
    · obtain ⟨⟨texts, hfilled⟩, -⟩ := exists_filled_export e period (session.anew files) ho hbare
        hbeside.resolve_bare
      have hfile := hbeside.isFile_of_stands hfilled hr hoccupied hstands
      rw [hfree r hr hfile] at hoccupied
      cases hoccupied
    · exact ⟨hresult, hrequests, fun r hr hfile => hbeside.read_eq hboth hr hfile,
        fun result hresult r hr => isFile_of_mem_relations hresult hr⟩

end anew

/-! Orders that are refused. -/

/-- A bound of an order is out of range, or its mode is none. -/
def Order.OutOfBounds (o : Order) : Prop :=
  o.batchSize ≤ 0 ∨ o.limit < 0 ∨ o.maxDepth < 0 ∨ o.subcollectionLimit ≤ 0 ∨
    Mode.ofValue? o.mode = none

theorem Order.OutOfBounds.refused {o : Order} (h : o.OutOfBounds) : ∃ f, o.settings = .error f := by
  cases hs : o.settings with
  | error f => exact ⟨f, rfl⟩
  | ok settings =>
    unfold Order.settings at hs
    split_ifs at hs with hbatch hlimit hdepth hsize
    cases hmode : Mode.ofValue? o.mode with
    | none =>
      rw [hmode] at hs
      cases hs
    | some mode =>
      rcases h with h | h | h | h | h
      · exact absurd h hbatch
      · exact absurd h hlimit
      · exact absurd h hdepth
      · exact absurd h hsize
      · rw [hmode] at h
        cases h

/-! One export after another. -/

/-- A call of an exporter: what the store holds then, what is ordered, when that is done, and what it is
told when it asks whether to stop. -/
structure Call where
  store : Store
  order : Order
  period : Time.Period
  cancellation : Cancellation

/-- What comes of a call. -/
def Call.outcome (c : Call) (hooks : Keyed Hook) (s : Session) : Outcome :=
  (Exporter.mk c.store hooks).export c.order c.period { s with cancellation := c.cancellation }

/-- The session after some calls, one after another. -/
def Session.after (s : Session) (hooks : Keyed Hook) (calls : List Call) : Session :=
  calls.foldl (fun s c => (c.outcome hooks s).session) s

theorem Session.Ready.after (h : session.Ready w base) (hooks : Keyed Hook) (calls : List Call) :
    (session.after hooks calls).Ready w base := by
  induction calls generalizing session with
  | nil => exact h
  | cons c rest ih =>
    have hnext : ({ session with cancellation := c.cancellation } : Session).Ready w base :=
      ⟨h.directory_eq, h.indent_eq, h.made⟩
    exact ih (hnext.export ⟨c.store, hooks⟩ c.order c.period)

namespace UsersTwice

/-- A collection, and one with a document that has half of a pair. -/
def stored : Store := .ofCollections
  [("users", [⟨"ada", []⟩]),
    ("halves", [⟨"x", [(.text "a", .text (String.ofList [Text.unitChar 0xD800]))]⟩])] [] [] false

def callFor (order : Order) : Call where
  store := stored
  order := order
  period := ⟨⟨⟨2024, 5, 1⟩, {}, some 0⟩, ⟨⟨2024, 5, 1⟩, {}, some 0⟩⟩
  cancellation := .never

def users : Order := { collection := "users" }

/-- A call that is refused, one that fails at a document, and one that comes to its end. -/
def earlier : List Call :=
  [callFor { users with batchSize := 0 }, callFor { collection := "halves" }, callFor users]

/-- A session with something at the path of the users' file, and with a writer whose run was not
ended. -/
def leftBehind (node : File.Node) : Session where
  writer := ⟨⟨false, ["out"]⟩, some 2, [("users", 2)], false⟩
  files := ⟨[(⟨false, ["out"]⟩, .directory), (⟨false, ["out", "users.json"]⟩, node)]⟩

def bareOut : File.Tree := ⟨[(⟨false, ["out"]⟩, .directory)]⟩

/-- An array that was not closed. -/
def openFile : File.Node := .ofText "[\n\x7b\x7d".toList

theorem isDirectory_leftBehind (r : String) (hr : sanitize r = r) :
    (leftBehind openFile).files.isDirectory ((leftBehind openFile).writer.path r) = false := by
  refine Bool.eq_false_iff.2 fun hd => ?_
  have hout : bareOut.resolve (leftBehind openFile).writer.directory = .ok ⟨false, ["out"]⟩ := by
    decide
  obtain ⟨q, hq, hnode⟩ := isDirectory_iff.1 hd
  obtain rfl := eq_jsonFile_of_resolve hout (slash_not_mem_of_sanitize hr) hq
  have hmem := exists_mem_of_node? hnode (by simp [jsonFile, Path.child])
  simp [leftBehind, jsonFile, Path.child, openFile, File.Node.ofText] at hmem

end UsersTwice
end BackendMigration.Export
