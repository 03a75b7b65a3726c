import BackendMigration.Adaptation.Body
import BackendMigration.Proofs.Migration.Delivery
import BackendMigration.Proofs.Pattern.Occurs
import BackendMigration.Proofs.Text.Occurrence
import BackendMigration.Service.Routes
import Mathlib.Data.List.Nodup

/-! Marks for review: they state the reasons that a text gives, and none of them gives or takes away
another reason. -/
namespace BackendMigration.Adaptation

open Text

/-- The mark of a reason, without the end of its line. -/
def mark (reason : String) : Text := reviewMarker ++ ": ".toList ++ reason.toList

theorem markerLine_eq (reason : String) : markerLine reason = mark reason ++ ['\n'] := rfl

theorem getLast?_markerLine (reason : String) : (markerLine reason).getLast? = some '\n' := by
  rw [markerLine_eq, List.getLast?_concat]

theorem residuals_nodup : (residuals.map (·.2)).Nodup := by decide

theorem overlooks_newline : ∀ r ∈ residuals, r.1.overlooks '\n' = true := by decide

/-- No residual begins in the mark of another one, whatever the text after the mark. -/
theorem avoids_markerLine : ∀ r ∈ residuals, ∀ r' ∈ residuals, r'.2 ≠ r.2 →
    r.1.avoids (markerLine r'.2) = true := by
  decide +kernel

theorem mem_reasons_iff {t : Text} {r : Pattern × String} (hr : r ∈ residuals) :
    r.2 ∈ reasons t ↔ r.1.occursIn t = true := by
  simp only [reasons, List.mem_map, List.mem_filter]
  constructor
  · rintro ⟨r', ⟨hr', hoccurs⟩, he⟩
    rwa [← List.inj_on_of_nodup_map residuals_nodup hr' hr he]
  · exact fun h => ⟨r, ⟨hr, h⟩, rfl⟩

theorem reasons_sublist (t : Text) : (reasons t).Sublist (residuals.map (·.2)) :=
  List.filter_sublist.map _

theorem exists_of_mem_reasons {t : Text} {reason : String} (h : reason ∈ reasons t) :
    ∃ r ∈ residuals, r.2 = reason := by
  simpa using (reasons_sublist t).subset h

/-- A mark in front does not take a reason away. -/
theorem occursIn_markerLine_append {r : Pattern × String} (hr : r ∈ residuals) (reason : String)
    {t : Text} (h : r.1.occursIn t = true) : r.1.occursIn (markerLine reason ++ t) = true :=
  Pattern.occursIn_append_of_overlooks (getLast?_markerLine reason) (overlooks_newline r hr) h

/-- Marks of reasons that a text gives change none of its reasons. -/
theorem occursIn_marks_append {r : Pattern × String} (hr : r ∈ residuals) {t : Text} {why : List String}
    (hwhy : why ⊆ reasons t) :
    r.1.occursIn (why.flatMap markerLine ++ t) = r.1.occursIn t := by
  induction why with
  | nil => rfl
  | cons reason why ih =>
    have ih := ih fun _ h => hwhy (List.mem_cons_of_mem _ h)
    have hreason := hwhy List.mem_cons_self
    rw [List.flatMap_cons, List.append_assoc]
    by_cases he : reason = r.2
    · have ht : r.1.occursIn t = true := (mem_reasons_iff hr).1 (he ▸ hreason)
      rw [ht] at ih ⊢
      exact occursIn_markerLine_append hr reason ih
    · obtain ⟨r', hr', rfl⟩ := exists_of_mem_reasons hreason
      rw [Pattern.occursIn_append_of_avoids (getLast?_markerLine r'.2) (overlooks_newline r hr)
        (avoids_markerLine r hr r' hr' he), ih]

theorem reasons_marks_append {t : Text} {why : List String} (hwhy : why ⊆ reasons t) :
    reasons (why.flatMap markerLine ++ t) = reasons t := by
  unfold reasons
  rw [List.filter_congr fun r hr => occursIn_marks_append hr hwhy]

theorem not_newline_mem_mark : ∀ r ∈ residuals, '\n' ∉ mark r.2 := by decide

theorem lines_append_newline {f : Text} (hf : '\n' ∉ f) (t : Text) :
    lines (f ++ '\n' :: t) = f :: lines t := by
  induction f with
  | nil => simp [lines, splitBy]
  | cons c f ih =>
    obtain ⟨hc, hf⟩ := not_or.1 (mt List.mem_cons.2 hf)
    have hsplit : splitBy (· == '\n') (f ++ '\n' :: t) = f :: splitBy (· == '\n') t := ih hf
    simp [lines, splitBy, Ne.symm hc, hsplit]

theorem lines_marks_append {why : List String} (hwhy : ∀ reason ∈ why, '\n' ∉ mark reason) (t : Text) :
    lines (why.flatMap markerLine ++ t) = why.map mark ++ lines t := by
  induction why with
  | nil => rfl
  | cons reason why ih =>
    rw [List.flatMap_cons, markerLine_eq, List.append_assoc, List.append_assoc, List.singleton_append,
      lines_append_newline (hwhy reason List.mem_cons_self),
      ih fun _ h => hwhy _ (List.mem_cons_of_mem _ h), List.map_cons, List.cons_append]

theorem needsReview_marks_append (why : List String) (t : Text) :
    needsReview (why.flatMap markerLine ++ t) = true ↔ why ≠ [] ∨ needsReview t = true := by
  cases why with
  | nil => simp
  | cons reason why =>
    refine iff_of_true (occursIn_iff.2 (List.IsPrefix.isInfix ?_)) (.inl (List.cons_ne_nil _ _))
    rw [List.flatMap_cons, markerLine, List.append_assoc, List.append_assoc, List.append_assoc,
      List.append_assoc]
    exact List.prefix_append _ _

/-- A text is put out with a mark for each reason to review it, in the order of the table; the marks
change none of the reasons. -/
structure Marked (t out : Text) : Prop where
  text_eq : out = (reasons t).flatMap markerLine ++ t
  lines_eq : lines out = (reasons t).map mark ++ lines t
  order : (reasons t).Sublist (residuals.map (·.2))
  mem_iff : ∀ r ∈ residuals, r.2 ∈ reasons t ↔ r.1.occursIn t = true
  reasons_eq : reasons out = reasons t
  needsReview_iff : needsReview out = true ↔ reasons t ≠ [] ∨ needsReview t = true

theorem marked_adapt (rules : List Rule) (body : Text) :
    Marked (applyAll rules body) (adapt rules body) where
  text_eq := rfl
  lines_eq := by
    refine lines_marks_append (fun reason h => ?_) _
    obtain ⟨r, hr, rfl⟩ := exists_of_mem_reasons h
    exact not_newline_mem_mark r hr
  order := reasons_sublist _
  mem_iff _ hr := mem_reasons_iff hr
  reasons_eq := reasons_marks_append (List.Subset.refl _)
  needsReview_iff := needsReview_marks_append _ _

end BackendMigration.Adaptation

/-! What is marked for review in a body is flagged in its function, in the preview and in the report of
a migration. -/
namespace BackendMigration.Migration

open Adaptation

/-- The functions that were written, each with its flag. -/
def Report.flags (r : Report) : List (String × Bool) :=
  (r.units.filter (·.status.isMigrated)).map fun line => (line.name, line.needsReview)

namespace Report

variable (r : Report) (name kind : String)

@[simp] theorem flags_addMigrated (path : Option String) (needsReview : Bool) :
    (r.addMigrated name kind path needsReview).flags = r.flags ++ [(name, needsReview)] := by
  simp [flags, addMigrated, Status.isMigrated]

@[simp] theorem flags_addFailed (message : Option String) :
    (r.addFailed name kind message).flags = r.flags := by
  simp [flags, addFailed, Status.isMigrated]

end Report

/-- What a state says about review, where the functions were made of some of the records: the line of a
function that was written has the flag of the function, which is that of the adapted body. -/
structure Flagged (g : Generator) (records : List FunctionRecord) (s : State) : Prop where
  flags_eq : s.report.flags = s.units.map fun u => (u.name, u.needsReview)
  made : ∀ u ∈ s.units, ∃ r ∈ records, u.name = r.name ∧
    u.needsReview = needsReview (adapt g.rules r.body.toList)
  failed : ∀ line ∈ s.report.units, line.status.isMigrated = false → line.needsReview = false

variable {g : Generator} {records : List FunctionRecord} {s s' : State} {out : File.Path}
  {r : FunctionRecord} {u : GeneratedUnit}

theorem eq_unit_of_make (h : (Conversion.ofGenerator g).make r = .ok (some u)) : u = g.unit r := by
  change (g.generate r).mapError Text.IntegerFault.message = .ok (some u) at h
  apply Generator.eq_unit_of_generate
  cases hg : g.generate r with
  | error f =>
    rw [hg] at h
    cases h
  | ok made =>
    rw [hg] at h
    exact congrArg Except.ok (Except.ok.inj h)

theorem Flagged.step (h : Flagged g records s) (hmem : r ∈ records)
    (hr : Fate (.ofGenerator g) out s r s') : Flagged g records s' := by
  have hfailed {line : Summary} (hnew : line.status.isMigrated = false → line.needsReview = false) :
      ∀ l ∈ s.report.units ++ [line], l.status.isMigrated = false → l.needsReview = false := by
    intro l hl
    rcases List.mem_append.1 hl with hold | hlast
    · exact h.failed l hold
    · rwa [List.mem_singleton.1 hlast]
  cases hr with
  | failed message files hfiles =>
    refine ⟨?_, h.made, hfailed fun _ => rfl⟩
    exact (Report.flags_addFailed ..).trans h.flags_eq
  | passed => exact ⟨h.flags_eq, h.made, h.failed⟩
  | migrated u path files hmake hwrite =>
    obtain rfl := eq_unit_of_make hmake
    refine ⟨?_, ?_, hfailed nofun⟩
    · refine (Report.flags_addMigrated ..).trans ?_
      rw [List.map_append, h.flags_eq]
      rfl
    · intro v hv
      rcases List.mem_append.1 hv with hold | hnew
      · exact h.made v hold
      · obtain rfl := List.mem_singleton.1 hnew
        exact ⟨r, hmem, rfl, rfl⟩

theorem flagged_migrateExtraction (cancellation : Cancellation) (e : Inventory.Extraction)
    (hlines : s.report.units = []) (hunits : s.units = []) :
    Flagged g (collapse e.records).1
      (migrateExtraction (.ofGenerator g) out cancellation e s) := by
  have hfound : Flagged g (collapse e.records).1 (s.found e) := by
    constructor <;> simp [State.found, Report.flags, hlines, hunits]
  obtain ⟨_, _, h, _⟩ := exists_reached_of_found (fun _ => Flagged g (collapse e.records).1)
    (fun done r s s' hpre _ h hr => h.step (hpre.subset (by simp)) hr)
    (fun _ s h => ⟨h.flags_eq, h.made, h.failed⟩) cancellation hfound
  exact h

/-- A body is put out with a mark for each reason to review what the rules leave of it, and the marks
change none of the reasons. The preview shows these reasons; it, the function and the report of a
migration flag the function exactly if there is a reason or what the rules leave has a mark of its
own. -/
theorem review_flags (g : Generator) (st : Setting) (hst : st.conversion = .ofGenerator g) (o : Order)
    (place : Place) (files : File.Tree) (cancellation : Cancellation) :
    (∀ body, Marked (applyAll g.rules body) (adapt g.rules body)) ∧
    (∀ body, Service.adaptedBody (adapt g.rules body) =
      .obj
        [("body", .str (String.ofList (adapt g.rules body))),
          ("needs_review", .bool
            (reasons (applyAll g.rules body) ≠ [] ∨ needsReview (applyAll g.rules body) = true)),
          ("reasons", .arr ((reasons (applyAll g.rules body)).map .str))]) ∧
    (∀ r u, g.generate r = .ok (some u) →
      u.needsReview = needsReview (adapt g.rules r.body.toList)) ∧
    ∀ outcome, run st o place files cancellation = .ok outcome →
      ∃ sought, place.find st o files cancellation = .ok sought ∧
        match sought with
        | .ok found => Flagged g (collapse found.extraction.records).1 outcome.state
        | .error _ => outcome.state.report.units = [] ∧ outcome.state.units = [] := by
  refine ⟨marked_adapt g.rules, fun body => ?_, fun r u h => ?_, fun outcome h => ?_⟩
  · have hmarked := marked_adapt g.rules body
    have hflag := Bool.eq_iff_iff.2 (hmarked.needsReview_iff.trans decide_eq_true_iff.symm)
    rw [Service.adaptedBody, hmarked.reasons_eq, hflag]
  · rw [Generator.eq_unit_of_generate h]
    rfl
  · obtain ⟨dir, sought, -, hfind, hsave⟩ := exists_of_run h
    obtain ⟨files', path, hfinal⟩ := exists_eq_of_saveReport hsave
    refine ⟨sought, hfind, ?_⟩
    rw [hfinal]
    cases sought with
    | error errors => exact ⟨rfl, rfl⟩
    | ok found =>
      have hflagged : Flagged g (collapse found.extraction.records).1
          (st.carry (.ofText dir) (st.begun o (.ofText dir) files) (.ok found)) := by
        rw [Setting.carry, hst]
        exact flagged_migrateExtraction _ _ rfl rfl
      exact ⟨hflagged.flags_eq, hflagged.made, hflagged.failed⟩

/-- A migration by the standard generator. -/
def standardSetting : Setting where
  conversion := .ofGenerator .standard
  id := "first"
  period := ⟨⟨⟨2024, 5, 1⟩, {}, some 0⟩, ⟨⟨2024, 5, 1⟩, {}, some 0⟩⟩

/-- A function that uses the administration client, and one that does not. -/
def twoBodies : Inventory.Extraction where
  source := "functions"
  records := [("sync", "admin.x"), ("ping", "y")].map fun (name, body) => { name, kind := .http, body }

theorem review_flags_twoBodies : ∃ outcome,
    run standardSetting { outputDir := .text "out" } (.given twoBodies) earlierOutput .never =
      .ok outcome ∧
    Flagged .standard (collapse twoBodies.records).1 outcome.state ∧
    twoBodies.records.map (fun r => (Generator.standard.unit r).needsReview) = [true, false] := by
  have hdirectory : earlierOutput.isDirectory (.ofText "out") = true := by decide
  have hout : (File.Path.ofText "out").names = ["out"] := by decide
  have hnames : namesOf twoBodies.records = ["sync", "ping"] := by decide
  have hnew : ∀ found, (Except.ok ⟨twoBodies, [], .never⟩ : Except (List OrderError) Found) =
      .ok found → ∀ name ∈ namesOf found.extraction.records,
        File.Path.IsName name ∧ Reachable (.ofText "out") name := by
    rintro _ ⟨⟩ name hname
    rw [hnames] at hname
    refine ⟨?_, reachable_of_no_points (by rw [hout]; decide) name⟩
    fin_cases hname <;> exact ⟨by decide, by decide, by decide, by decide⟩
  obtain ⟨outcome, hrun⟩ := @exists_run _ standardSetting { outputDir := .text "out" }
    (.given twoBodies) earlierOutput .never "out" "migration_report.json" _
    (keepsNames_ofGenerator _) (File.Tree.closed_ofFiles _) rfl
    (File.Tree.makeDirectories_of_isDirectory hdirectory) rfl
    ⟨by decide, by decide, by decide, by decide⟩ (by decide) rfl hnew
  obtain ⟨sought, hfind, hflagged⟩ := (review_flags .standard standardSetting rfl
    { outputDir := .text "out" } (.given twoBodies) earlierOutput .never).2.2.2 outcome hrun
  cases hfind
  exact ⟨outcome, hrun, hflagged, by decide⟩

end BackendMigration.Migration
