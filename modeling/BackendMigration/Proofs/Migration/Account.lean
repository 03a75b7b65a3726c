import BackendMigration.Proofs.Migration.Fate

/-! The account that a migration gives: each function it reached is in one place of the report. -/
namespace BackendMigration.Migration

namespace Report

/-- The functions that were written. -/
def migratedNames (r : Report) : List String :=
  (r.units.filter (·.status.isMigrated)).map (·.name)

/-- The functions that could not be made or written. -/
def failedNames (r : Report) : List String :=
  (r.units.filter (!·.status.isMigrated)).map (·.name)

variable (r : Report) (name kind : String)

@[simp] theorem migratedNames_addMigrated (path : Option String) (needsReview : Bool) :
    (r.addMigrated name kind path needsReview).migratedNames = r.migratedNames ++ [name] := by
  simp [migratedNames, addMigrated, Status.isMigrated]

@[simp] theorem failedNames_addMigrated (path : Option String) (needsReview : Bool) :
    (r.addMigrated name kind path needsReview).failedNames = r.failedNames := by
  simp [failedNames, addMigrated, Status.isMigrated]

@[simp] theorem migratedNames_addFailed (message : Option String) :
    (r.addFailed name kind message).migratedNames = r.migratedNames := by
  simp [migratedNames, addFailed, Status.isMigrated]

@[simp] theorem failedNames_addFailed (message : Option String) :
    (r.addFailed name kind message).failedNames = r.failedNames ++ [name] := by
  simp [failedNames, addFailed, Status.isMigrated]

theorem perm_names : (r.migratedNames ++ r.failedNames).Perm (r.units.map (·.name)) := by
  rw [migratedNames, failedNames, ← List.map_append]
  exact (List.filter_append_perm _ r.units).map _

end Report

/-- A state accounts for names: each stands among the lines of the report or among the names passed
over, in the order in which they were reached. -/
structure Accounts (names : List String) (s : State) : Prop where
  consistent : s.report.Consistent
  listed : s.report.units.map (·.name) = names.filter (· ∉ s.report.skipped)
  passed : s.report.skipped = names.filter (· ∈ s.report.skipped)
  written : s.units.map (·.name) = s.report.migratedNames
  failures : s.failures.map (·.name) = s.report.failedNames

namespace Accounts

variable {names : List String} {s s' : State} {c : Conversion} {out : File.Path}
  {r : FunctionRecord}

theorem perm (h : Accounts names s) :
    (s.report.migratedNames ++ s.report.failedNames ++ s.report.skipped).Perm names := by
  have hparts := List.filter_append_perm (· ∈ s.report.skipped) names
  have hlisted : (s.report.migratedNames ++ s.report.failedNames).Perm
      (names.filter (· ∉ s.report.skipped)) := h.listed ▸ s.report.perm_names
  rw [← h.passed] at hparts
  refine ((hlisted.append_right _).trans List.perm_append_comm).trans ?_
  simpa using hparts

theorem sum_eq (h : Accounts names s) :
    s.report.migratedCount + s.report.failedCount + s.report.skippedCount = names.length := by
  obtain ⟨h1, h2, h3⟩ := h.consistent
  have hlen := h.perm.length_eq
  simp only [List.length_append, Report.migratedNames, Report.failedNames, List.length_map] at hlen
  omega

/-- A record of a new name is accounted for, whatever becomes of it. -/
theorem step (hc : c.KeepsNames) (h : Accounts names s) (hnew : r.name ∉ names)
    (hr : Fate c out s r s') : Accounts (names ++ [r.name]) s' := by
  have hskipped : r.name ∉ s.report.skipped := by
    intro hs
    rw [h.passed] at hs
    exact hnew ((List.mem_filter.1 hs).1)
  have hlisted : (names ++ [r.name]).filter (· ∉ s.report.skipped) =
      s.report.units.map (·.name) ++ [r.name] := by
    simp [List.filter_append, hskipped, h.listed]
  have hpassed : (names ++ [r.name]).filter (· ∈ s.report.skipped) = s.report.skipped := by
    rw [List.filter_append, ← h.passed]
    simp [hskipped]
  cases hr with
  | failed message files hfiles =>
    constructor
    · exact Report.Consistent.addFailed h.consistent ..
    · exact (List.map_append ..).trans hlisted.symm
    · exact hpassed.symm
    · exact h.written.trans (Report.migratedNames_addFailed ..).symm
    · refine (List.map_append ..).trans ?_
      rw [h.failures]
      exact (Report.failedNames_addFailed ..).symm
  | passed =>
    have hmem : ∀ n ∈ names, n ∈ s.report.skipped ++ [r.name] ↔ n ∈ s.report.skipped := by
      intro n hn
      have : n ≠ r.name := fun e => hnew (e ▸ hn)
      simp [this]
    constructor
    · exact Report.Consistent.addSkipped h.consistent _
    · change s.report.units.map (·.name) = (names ++ [r.name]).filter (· ∉ s.report.skipped ++ [r.name])
      rw [List.filter_append, h.listed]
      have hsame : names.filter (· ∉ s.report.skipped ++ [r.name]) =
          names.filter (· ∉ s.report.skipped) :=
        List.filter_congr fun n hn => by simp only [hmem n hn]
      rw [hsame]
      simp
    · change s.report.skipped ++ [r.name] =
        (names ++ [r.name]).filter (· ∈ s.report.skipped ++ [r.name])
      have hsame : names.filter (· ∈ s.report.skipped ++ [r.name]) =
          names.filter (· ∈ s.report.skipped) :=
        List.filter_congr fun n hn => by simp only [hmem n hn]
      rw [List.filter_append, hsame, ← h.passed]
      simp
    · exact h.written
    · exact h.failures
  | migrated u path files hmake hwrite =>
    constructor
    · exact Report.Consistent.addMigrated h.consistent ..
    · exact (List.map_append ..).trans hlisted.symm
    · exact hpassed.symm
    · refine (List.map_append ..).trans ?_
      rw [h.written, List.map_singleton, hc r u hmake]
      exact (Report.migratedNames_addMigrated ..).symm
    · exact h.failures.trans (Report.failedNames_addMigrated ..).symm

end Accounts

/-- A finished state accounts for the functions among records: each that was reached is migrated,
failed or passed over, and those reached are the first ones. -/
structure Accounted (records : List FunctionRecord) (s : State) : Prop where
  total_eq : s.report.total = (namesOf records).length
  reached : ∃ names, names <+: namesOf records ∧
    (s.report.migratedNames ++ s.report.failedNames ++ s.report.skipped).Perm names ∧
    s.report.units.map (·.name) = names.filter (· ∉ s.report.skipped)
  nodup : (s.report.migratedNames ++ s.report.failedNames ++ s.report.skipped).Nodup
  migratedCount_eq : s.report.migratedCount = s.report.migratedNames.length
  failedCount_eq : s.report.failedCount = s.report.failedNames.length
  skippedCount_eq : s.report.skippedCount = s.report.skipped.length
  sum_le : s.report.migratedCount + s.report.failedCount + s.report.skippedCount ≤ s.report.total
  sum_eq : s.report.cancelled = false →
    s.report.migratedCount + s.report.failedCount + s.report.skippedCount = s.report.total
  units_eq : s.units.map (·.name) = s.report.migratedNames
  failures_eq : s.failures.map (·.name) = s.report.failedNames

/-- Nothing was looked for, so nothing is reported. -/
structure Refused (s : State) : Prop where
  fatal : s.report.fatal = true
  total_eq : s.report.total = 0
  counts_eq : s.report.migratedCount = 0 ∧ s.report.failedCount = 0 ∧ s.report.skippedCount = 0
  empty : s.report.units = [] ∧ s.report.skipped = []
  none_made : s.units = [] ∧ s.failures = []

variable {c : Conversion}

theorem accounted_migrateExtraction (hc : c.KeepsNames) (out : File.Path)
    (cancellation : Cancellation) (e : Inventory.Extraction) {s : State} (hs : Accounts [] s) :
    Accounted e.records (migrateExtraction c out cancellation e s) := by
  let all := (collapse e.records).1
  have hnames : all.map (·.name) = namesOf e.records := map_name_collapse e.records
  have hnodup : (all.map (·.name)).Nodup := hnames ▸ nodup_namesOf e.records
  let I (done : List FunctionRecord) (s : State) : Prop :=
    s.report.total = all.length ∧ Accounts (done.map (·.name)) s
  have hfound : I [] (s.found e) := ⟨rfl, hs.1, hs.2, hs.3, hs.4, hs.5⟩
  have hstep : ∀ done r s s', done ++ [r] <+: all → r.name ∉ done.map (·.name) → I done s →
      Fate c out s r s' → I (done ++ [r]) s' := by
    intro done r s s' _ hnew ⟨htotal, ha⟩ hr
    refine ⟨?_, ?_⟩
    · cases hr <;> exact htotal
    · rw [List.map_append]
      exact ha.step hc hnew hr
  have hstop : ∀ done s, I done s → I done s.stopped :=
    fun done s ⟨htotal, ha⟩ => ⟨htotal, ha.1, ha.2, ha.3, ha.4, ha.5⟩
  obtain ⟨reached, hpre, ⟨htotal, ha⟩, hall⟩ :=
    exists_reached_of_found I hstep hstop cancellation hfound
  have hlen : reached.length ≤ all.length := hpre.length_le
  have htotal' : (all.length : Int) = (namesOf e.records).length := by rw [← hnames, List.length_map]
  have hsum := ha.sum_eq
  have hperm := ha.perm
  rw [List.length_map] at hsum
  constructor
  · rw [htotal, htotal']
  · exact ⟨_, hnames ▸ hpre.map (·.name), hperm, ha.listed⟩
  · exact hperm.nodup_iff.2 (hnodup.sublist (hpre.map (·.name)).sublist)
  · rw [ha.consistent.1, Report.migratedNames, List.length_map]
  · rw [ha.consistent.2.1, Report.failedNames, List.length_map]
  · exact ha.consistent.2.2
  · rw [hsum, htotal]
    exact_mod_cast hlen
  · intro hc
    rw [hsum, htotal, hall hc]
  · exact ha.written
  · exact ha.failures

/-- What the report is finished with does not change what is accounted for. -/
theorem Accounted.finish {records : List FunctionRecord} {s : State} (h : Accounted records s)
    (files : File.Tree) (path : Option String) (time : Option Time.Timestamp) :
    Accounted records
      { s with files, report := { s.report with completedAt := time, reportPath := path } } :=
  ⟨h.1, h.2, h.3, h.4, h.5, h.6, h.7, h.8, h.9, h.10⟩

theorem accounts_begun (st : Setting) (o : Order) (out : File.Path) (files : File.Tree) :
    Accounts [] (st.begun o out files) := by
  constructor <;> simp [Setting.begun, Report.Consistent, Report.migratedNames, Report.failedNames]

/-- Whatever becomes of the functions found, and wherever the migration is cancelled, its report
accounts for them; an order that cannot be carried out has an empty report. There is a report unless
the functions cannot be looked for, a setting is no text, or a path is one that no file can have. -/
theorem run_accounts (st : Setting) (o : Order) (place : Place) (files : File.Tree)
    (cancellation : Cancellation) (hc : st.conversion.KeepsNames) :
    (∀ outcome, run st o place files cancellation = .ok outcome →
      ∃ sought, place.find st o files cancellation = .ok sought ∧
        match sought with
        | .ok found => Accounted found.extraction.records outcome.state
        | .error _ => Refused outcome.state) ∧
    ∀ f, run st o place files cancellation = .error f →
      place.find st o files cancellation = .error f ∨
        f = .kind ∧ (o.outputDir.text? = none ∨ o.reportName.text? = none) ∨
        ∃ g, f = .path g ∧ g.cause.isImpossible = true := by
  refine ⟨fun outcome h => ?_, fun f h => error_of_run h⟩
  obtain ⟨dir, sought, hdir, hfind, hsave⟩ := exists_of_run h
  obtain ⟨files', path, hfinal⟩ := exists_eq_of_saveReport hsave
  refine ⟨sought, hfind, ?_⟩
  rw [hfinal]
  cases sought with
  | error errors => exact ⟨rfl, rfl, ⟨rfl, rfl, rfl⟩, ⟨rfl, rfl⟩, rfl, rfl⟩
  | ok found =>
    have haccounted := accounted_migrateExtraction hc (.ofText dir) found.cancellation
      found.extraction (accounts_begun st o (.ofText dir) files)
    exact haccounted.finish files' path _

/-- A conversion that fails for one name and passes over another. -/
def partialConversion : Conversion where
  make r :=
    if r.name = "broken" then .error "no code"
    else if r.name = "queued" then .ok none
    else .ok (some ⟨r.name, r.kind, "serve()", .null, none, false⟩)

theorem keepsNames_partialConversion : partialConversion.KeepsNames := by
  intro r u h
  change (if r.name = "broken" then _ else if r.name = "queued" then _ else _) = _ at h
  split at h
  · cases h
  · split at h
    · cases h
    · cases h
      rfl

/-- Functions of three names, one of them found twice. -/
def threeNames : Inventory.Extraction where
  source := "functions"
  records := ["hello", "broken", "queued", "hello"].map fun name =>
    { name, kind := .http, body := "" }

/-- A migration by the partial conversion. -/
def partialSetting : Setting where
  conversion := partialConversion
  id := "first"
  period := ⟨⟨⟨2024, 5, 1⟩, {}, some 0⟩, ⟨⟨2024, 5, 1⟩, {}, some 0⟩⟩

theorem run_accounts_threeNames : ∃ outcome,
    run partialSetting { outputDir := .text "out" } (.given threeNames) .empty .never = .ok outcome ∧
      Accounted threeNames.records outcome.state := by
  have hreturns : (run partialSetting { outputDir := .text "out" } (.given threeNames) .empty
      .never).toOption.isSome = true := by
    decide
  have haccounts := run_accounts partialSetting { outputDir := .text "out" } (.given threeNames)
    .empty .never keepsNames_partialConversion
  cases hrun : run partialSetting { outputDir := .text "out" } (.given threeNames) .empty .never with
  | error f =>
    rw [hrun] at hreturns
    cases hreturns
  | ok outcome =>
    obtain ⟨sought, hfind, haccounted⟩ := haccounts.1 outcome hrun
    cases hfind
    exact ⟨outcome, rfl, haccounted⟩

end BackendMigration.Migration
