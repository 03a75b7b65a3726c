import BackendMigration.Migration.Run
import Mathlib.Data.List.Induction

/-! The functions that a migration goes through: one of each name, where the name is first seen. -/
namespace BackendMigration.Migration

/-- The names of functions, each where it is first seen. -/
def namesOf (records : List FunctionRecord) : List String := (records.map (·.name)).eraseDups

variable {records : List FunctionRecord} {r : FunctionRecord}

theorem namesOf_concat (records : List FunctionRecord) (r : FunctionRecord) :
    namesOf (records ++ [r]) =
      if r.name ∈ namesOf records then namesOf records else namesOf records ++ [r.name] := by
  have hmem : r.name ∈ namesOf records ↔ r.name ∈ records.map (·.name) := List.mem_eraseDups
  have hsplit : namesOf (records ++ [r]) =
      namesOf records ++ ([r.name].removeAll (records.map (·.name))).eraseDups := by
    rw [namesOf, List.map_append, List.map_singleton, List.eraseDups_append, namesOf]
  rw [hsplit]
  by_cases h : r.name ∈ records.map (·.name)
  · have hnone : [r.name].removeAll (records.map (·.name)) = [] := by
      simpa [List.removeAll] using h
    rw [hnone, if_pos (hmem.2 h), List.eraseDups_nil, List.append_nil]
  · have hall : [r.name].removeAll (records.map (·.name)) = [r.name] := by
      simpa [List.removeAll] using h
    rw [hall, if_neg fun hn => h (hmem.1 hn)]
    rfl

/-- While records are collapsed, each is kept under its name, and the names stand in the order in which
they were first seen. -/
theorem foldl_collapseStep (records : List FunctionRecord) :
    let kept := (records.foldl collapseStep ([], [])).1
    Keyed.keys kept = namesOf records ∧ ∀ e ∈ kept, e.2.name = e.1 := by
  induction records using List.reverseRecOn with
  | nil => exact ⟨rfl, fun e he => absurd he List.not_mem_nil⟩
  | append_singleton records r ih =>
    obtain ⟨hkeys, hnames⟩ := ih
    rw [List.foldl_append]
    generalize records.foldl collapseStep ([], []) = kept at hkeys hnames ⊢
    change Keyed.keys (Keyed.set r.name r kept.1) = _ ∧ ∀ e ∈ Keyed.set r.name r kept.1, _
    constructor
    · rw [Keyed.keys_set, namesOf_concat, ← hkeys]
      simp only [Keyed.has_iff]
    · intro e he
      rcases Keyed.mem_set he with rfl | he
      · rfl
      · exact hnames e he

theorem map_name_collapse (records : List FunctionRecord) :
    (collapse records).1.map (·.name) = namesOf records := by
  obtain ⟨hkeys, hnames⟩ := foldl_collapseStep records
  rw [← hkeys, collapse, List.map_map]
  exact List.map_congr_left hnames

theorem nodup_namesOf (records : List FunctionRecord) : (namesOf records).Nodup := by
  induction records using List.reverseRecOn with
  | nil => exact List.nodup_nil
  | append_singleton records r ih =>
    rw [namesOf_concat]
    split
    · exact ih
    · rename_i hnew
      refine List.nodup_append.2 ⟨ih, by simp, fun a ha b hb => ?_⟩
      rintro rfl
      exact hnew (List.mem_singleton.1 hb ▸ ha)

/-! What becomes of a record in a migration, and what a migration preserves. -/

/-- A function is made under the name of its record. -/
def Conversion.KeepsNames (c : Conversion) : Prop :=
  ∀ r u, c.make r = .ok (some u) → u.name = r.name

theorem keepsNames_ofGenerator (g : Generator) : (Conversion.ofGenerator g).KeepsNames := by
  intro r u h
  change (g.generate r).mapError Text.IntegerFault.message = .ok (some u) at h
  cases hg : g.generate r with
  | error f =>
    rw [hg] at h
    cases h
  | ok made =>
    rw [hg] at h
    have hmade : made = some u := Except.ok.inj h
    rw [hmade] at hg
    rw [Generator.eq_unit_of_generate hg]
    rfl

/-- What becomes of a record that is reached in a state: it fails before or while its function is
written, it is passed over, or its function is written. -/
inductive Fate (c : Conversion) (out : File.Path) (s : State) (r : FunctionRecord) : State → Prop
  | failed (message : String) (files : File.Tree)
      (hfiles : files = s.files ∨ ∃ u, c.make r = .ok (some u) ∧
        writeUnit c.write s.files out u = (.error message, files)) :
      Fate c out s r
        { s with
          files
          report := (s.report.addError ("Failed to migrate " ++ r.name ++ ": " ++ message)).addFailed
            r.name r.kind.name (some message)
          failures := s.failures ++ [⟨r.name, r.kind, message⟩] }
  | passed :
      Fate c out s r
        { s with report := (s.report.addWarning (unsupportedWarning r)).addSkipped r.name }
  | migrated (u : GeneratedUnit) (path : File.Path) (files : File.Tree)
      (hmake : c.make r = .ok (some u)) (hwrite : writeUnit c.write s.files out u = (.ok path, files)) :
      Fate c out s r
        { s with
          files
          report := s.report.addMigrated r.name r.kind.name (some path.text) u.needsReview
          units := s.units ++ [u] }

variable {c : Conversion} {out : File.Path}

theorem fate_migrateRecord (s : State) (r : FunctionRecord) :
    Fate c out s r (migrateRecord c out s r) := by
  unfold migrateRecord
  dsimp only
  split
  · exact .failed _ s.files (.inl rfl)
  · exact .passed
  · rename_i u hmake
    split
    · rename_i message files hwrite
      exact .failed message files (.inr ⟨u, hmake, hwrite⟩)
    · rename_i path files hwrite
      exact .migrated u path files hmake hwrite

/-- A state in which a migration was stopped. -/
def State.stopped (s : State) : State :=
  { s with report := { s.report.addWarning cancelledWarning with cancelled := true } }

/-- What each fate of a record and being stopped preserve holds of the records that were reached; those
are the first ones, and all of them in a migration that was not cancelled. -/
theorem exists_reached {all done rest : List FunctionRecord} {s : State}
    (I : List FunctionRecord → State → Prop)
    (hstep : ∀ done r s s', done ++ [r] <+: all → I done s → Fate c out s r s' → I (done ++ [r]) s')
    (hstop : ∀ done s, I done s → I done s.stopped)
    (cancellation : Cancellation) (hall : done ++ rest = all) (hs : I done s) :
    let s' := migrateRecords c out cancellation rest s
    ∃ reached, reached <+: all ∧ I reached s' ∧ (s'.report.cancelled = false → reached = all) := by
  induction rest generalizing done s cancellation with
  | nil => exact ⟨done, ⟨[], hall⟩, hs, fun _ => by rw [← hall, List.append_nil]⟩
  | cons r rest ih =>
    unfold migrateRecords
    split
    · refine ⟨done, ⟨r :: rest, hall⟩, hstop done s hs, fun h => ?_⟩
      exact absurd h Bool.noConfusion
    · have hall' : done ++ [r] ++ rest = all := by rw [← hall, List.append_assoc]; rfl
      exact ih _ hall' (hstep done r s _ ⟨rest, hall'⟩ hs (fate_migrateRecord s r))

/-- The state of a migration that has found functions. -/
def State.found (s : State) (e : Inventory.Extraction) : State :=
  { s with
    report := { s.report with
      total := (collapse e.records).1.length
      warnings := s.report.warnings ++ e.warnings ++ (collapse e.records).2
      errors := s.report.errors ++ e.errors
      cancelled := s.report.cancelled || e.cancelled } }

/-- The same of the functions found: each that is reached has a new name. -/
theorem exists_reached_of_found {e : Inventory.Extraction} {s : State}
    (I : List FunctionRecord → State → Prop)
    (hstep : ∀ done r s s', done ++ [r] <+: (collapse e.records).1 → r.name ∉ done.map (·.name) →
      I done s → Fate c out s r s' → I (done ++ [r]) s')
    (hstop : ∀ done s, I done s → I done s.stopped) (cancellation : Cancellation)
    (hs : I [] (s.found e)) :
    let s' := migrateExtraction c out cancellation e s
    ∃ reached, reached <+: (collapse e.records).1 ∧ I reached s' ∧
      (s'.report.cancelled = false → reached = (collapse e.records).1) := by
  have hnodup : ((collapse e.records).1.map (·.name)).Nodup := by
    rw [map_name_collapse]
    exact nodup_namesOf e.records
  refine exists_reached I (fun done r s s' hall => hstep done r s s' hall ?_) hstop cancellation
    (List.nil_append _) hs
  have hprefix := hnodup.sublist (hall.map (·.name)).sublist
  rw [List.map_append, List.nodup_append] at hprefix
  exact fun hn => hprefix.2.2 _ hn _ (List.mem_singleton_self _) rfl

/-- Saving the report touches the files and where the report is. -/
theorem exists_eq_of_saveReport {name : Document.Value} {s s' : State}
    (h : saveReport out name s = .ok s') :
    ∃ files path, s' = { s with files, report := { s.report with reportPath := path } } := by
  have hnone : ∀ (f : File.Fault) (t : State), withoutReport f t = .ok s' → s' = t := by
    intro f t ht
    unfold withoutReport at ht
    split at ht
    · cases ht
    · exact (Except.ok.inj ht).symm
  unfold saveReport at h
  split at h
  · exact ⟨s.files, s.report.reportPath, hnone _ s h⟩
  · split at h
    · cases h
    · dsimp only at h
      split at h
      · exact ⟨_, s.report.reportPath, hnone _ _ h⟩
      · exact ⟨_, _, (Except.ok.inj h).symm⟩

/-- A report is only missing where a setting is no text or a path is one that no file can have. -/
theorem error_of_saveReport {name : Document.Value} {s : State} {f : Failure}
    (h : saveReport out name s = .error f) :
    f = .kind ∧ name.text? = none ∨ ∃ g, f = .path g ∧ g.cause.isImpossible = true := by
  have himpossible : ∀ (g : File.Fault) (t : State), withoutReport g t = .error f →
      ∃ g, f = .path g ∧ g.cause.isImpossible = true := by
    intro g t ht
    unfold withoutReport at ht
    split at ht
    · rename_i hg
      exact ⟨g, (Except.error.inj ht).symm, hg⟩
    · cases ht
  unfold saveReport at h
  split at h
  · exact .inr (himpossible _ _ h)
  · split at h
    · rename_i hname
      exact .inl ⟨(Except.error.inj h).symm, hname⟩
    · dsimp only at h
      split at h
      · exact .inr (himpossible _ _ h)
      · cases h

/-! A whole migration. -/

/-- The state in which a migration begins. -/
def Setting.begun (st : Setting) (o : Order) (out : File.Path) (files : File.Tree) : State where
  report :=
    { id := st.id, source := o.source.shown, outputDir := out.text,
      startedAt := some st.period.start }
  files := files

/-- The state once what was sought is gone through, or is known not to be there. -/
def Setting.carry (st : Setting) (out : File.Path) (begun : State) :
    Except (List OrderError) Found → State
  | .error errors =>
    { begun with
      report := { begun.report with errors := errors.map (·.message), fatal := true } }
  | .ok found => migrateExtraction st.conversion out found.cancellation found.extraction begun

/-- The state with the time at which it was reached. -/
def State.completed (s : State) (time : Time.Timestamp) : State :=
  { s with report := { s.report with completedAt := some time } }

variable {st : Setting} {o : Order} {place : Place} {files : File.Tree}
  {cancellation : Cancellation}

theorem exists_of_map_eq_ok {ε α β : Type} {f : α → β} {x : Except ε α} {b : β}
    (h : x.map f = .ok b) : ∃ a, x = .ok a ∧ f a = b := by
  cases x with
  | error e => cases h
  | ok a => exact ⟨a, rfl, Except.ok.inj h⟩

theorem eq_error_of_map {ε α β : Type} {f : α → β} {x : Except ε α} {e : ε}
    (h : x.map f = .error e) : x = .error e := by
  cases x with
  | error e' => rw [Except.error.inj h]
  | ok a => cases h

theorem exists_of_run {outcome : Outcome} (h : run st o place files cancellation = .ok outcome) :
    ∃ dir sought, o.outputDir.text? = some dir ∧
      place.find st o files cancellation = .ok sought ∧
      saveReport (.ofText dir) o.reportName
        ((st.carry (.ofText dir) (st.begun o (.ofText dir) files) sought).completed st.period.stop) =
          .ok outcome.state := by
  unfold run at h
  split at h
  · cases h
  · rename_i dir hdir
    dsimp only at h
    split at h
    · split at h <;> cases h
    · rename_i errors hfind
      refine ⟨dir, .error errors, hdir, hfind, ?_⟩
      obtain ⟨s, hs, rfl⟩ := exists_of_map_eq_ok h
      exact hs
    · rename_i found hfind
      refine ⟨dir, .ok found, hdir, hfind, ?_⟩
      obtain ⟨s, hs, rfl⟩ := exists_of_map_eq_ok h
      exact hs

theorem error_of_run {f : Failure} (h : run st o place files cancellation = .error f) :
    place.find st o files cancellation = .error f ∨
      f = .kind ∧ (o.outputDir.text? = none ∨ o.reportName.text? = none) ∨
      ∃ g, f = .path g ∧ g.cause.isImpossible = true := by
  unfold run at h
  split at h
  · rename_i hdir
    exact .inr (.inl ⟨(Except.error.inj h).symm, .inl hdir⟩)
  · dsimp only at h
    split at h
    · rename_i g hfind
      split at h
      · rename_i hsave
        cases h
        exact .inr ((error_of_saveReport hsave).imp_left (.imp_right .inr))
      · rw [hfind, Except.error.inj h]
        exact .inl rfl
    · have hsave := eq_error_of_map h
      exact .inr ((error_of_saveReport hsave).imp_left (.imp_right .inr))
    · have hsave := eq_error_of_map h
      exact .inr ((error_of_saveReport hsave).imp_left (.imp_right .inr))

end BackendMigration.Migration
