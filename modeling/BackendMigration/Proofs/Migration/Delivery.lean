import BackendMigration.Proofs.Migration.Account
import BackendMigration.Proofs.Migration.Unit
import Mathlib.Tactic.FinCases

/-! What a migration leaves in its output directory: the functions it wrote, its report, and for the
rest what was there. -/
namespace BackendMigration.Migration

open File File.Tree

variable {write : GeneratedUnit → Except String String} {c : Conversion} {out : Path}
  {base t t' : Tree} {units : List GeneratedUnit} {u : GeneratedUnit} {s s' : State}

/-- Functions are written to a directory, and all else is as in another tree. -/
structure Kept (write : GeneratedUnit → Except String String) (out : Path) (base t : Tree)
    (units : List GeneratedUnit) : Prop where
  directory : t.isDirectory out = true
  written : ∀ u ∈ units, Written write t (out.goal.child u.name) u
  other : ∀ p, (∀ u ∈ units, p.within (out.goal.child u.name) = false) → t.node? p = base.node? p

namespace Kept

theorem nil (h : base.isDirectory out = true) : Kept write out base base [] :=
  ⟨h, fun _ hu => absurd hu List.not_mem_nil, fun _ _ => rfl⟩

/-- Where nothing stands in the directory, nothing stands below. -/
theorem node?_below (h : Kept write out base t units) (hbase : base.Closed) (name : String)
    (names : List String) (hnone : t.node? (out.goal.child name) = none) :
    t.node? ((out.goal.child name).below names) = none := by
  have hnew : ∀ v ∈ units, name ≠ v.name := by
    rintro v hv rfl
    rw [(h.written v hv).directory] at hnone
    cases hnone
  have hsame (names : List String) : t.node? ((out.goal.child name).below names) =
      base.node? ((out.goal.child name).below names) :=
    h.other _ fun v hv => Path.not_within_child (Path.within_below _ names) (hnew v hv)
  by_cases hnil : names = []
  · rw [hnil, Path.below_nil, hnone]
  · rw [hsame]
    refine hbase.node?_below ?_ hnil
    rw [← Path.below_nil (out.goal.child name), ← hsame, Path.below_nil, hnone]
    exact nofun

/-- One more function is written. -/
theorem concat (h : Kept write out base t units) (hclear : Reachable out u.name)
    (hnew : ∀ v ∈ units, v.name ≠ u.name) (hu : Written write t' (out.goal.child u.name) u)
    (hsame : ∀ p, p.within (out.goal.child u.name) = false → t'.node? p = t.node? p) :
    Kept write out base t' (units ++ [u]) := by
  constructor
  · exact isDirectory_of_reachable h.directory hclear hsame
  · intro v hv
    rcases List.mem_append.1 hv with hv | hv
    · refine (h.written v hv).of_below fun names => hsame _ ?_
      exact Path.not_within_child (Path.within_below _ names) (hnew v hv)
    · rw [List.mem_singleton.1 hv]
      exact hu
  · intro p hp
    have hlast := hp u (List.mem_append_right _ (List.mem_singleton_self u))
    rw [hsame p hlast]
    exact h.other p fun v hv => hp v (List.mem_append_left _ hv)

/-- A file of another name beside the functions leaves these as they are. -/
theorem written_setNode (h : Kept write out base t units) {name : String} {n : Node}
    (hn : t.node? (out.goal.child name) ≠ some .directory) (hu : u ∈ units) :
    Written write (t.setNode (out.goal.child name) n) (out.goal.child u.name) u := by
  refine (h.written u hu).of_below fun names => node?_setNode_of_ne ?_
  have hne : u.name ≠ name := by
    rintro rfl
    exact hn (h.written u hu).directory
  intro he
  have hin := Path.not_within_child (Path.within_below (out.goal.child u.name) names) hne
  rw [he, Path.within_self] at hin
  cases hin

end Kept

/-- After records are gone through, the functions made of some of them are in the output directory,
which is otherwise as it was. -/
structure Delivers (c : Conversion) (out : Path) (base : Tree) (done : List FunctionRecord)
    (s : State) : Prop where
  made : ∀ u ∈ s.units, ∃ r ∈ done, c.make r = .ok (some u)
  kept : ∃ t, s.files.makeDirectories out = .ok t ∧ Kept c.write out base t s.units

variable {done : List FunctionRecord} {r : FunctionRecord}

/-- Whatever becomes of a record of a new name, what was delivered stays, and nothing else changes but
for the function written. -/
theorem Delivers.step (hc : c.KeepsNames) (hbase : base.Closed) (h : Delivers c out base done s)
    (hname : Path.IsName r.name) (hclear : Reachable out r.name)
    (hnew : r.name ∉ done.map (·.name)) (hr : Fate c out s r s') :
    Delivers c out base (done ++ [r]) s' := by
  obtain ⟨t, hm, hkept⟩ := h.kept
  have hearlier : ∀ u ∈ s.units, ∃ r' ∈ done ++ [r], c.make r' = .ok (some u) := by
    intro u hu
    obtain ⟨r', hr', hmake⟩ := h.made u hu
    exact ⟨r', List.mem_append_left _ hr', hmake⟩
  have hagain : t.makeDirectories out = .ok t := makeDirectories_of_isDirectory hkept.directory
  have hwrite (u : GeneratedUnit) (hmake : c.make r = .ok (some u)) :=
    writeUnit_cases (u := u) c.write hm (by rw [hc r u hmake]; exact hname)
      (by rw [hc r u hmake]; exact hclear) (hkept.node?_below hbase)
  cases hr with
  | failed message files hfiles =>
    refine ⟨hearlier, ?_⟩
    rcases hfiles with rfl | ⟨u, hmake, hfailed⟩
    · exact ⟨t, hm, hkept⟩
    · rcases hwrite u hmake with ⟨message', he⟩ | ⟨t', he, -⟩
      · obtain rfl := (Prod.mk.inj (hfailed.symm.trans he)).2
        exact ⟨files, hagain, hkept⟩
      · cases (Prod.mk.inj (hfailed.symm.trans he)).1
  | passed => exact ⟨hearlier, t, hm, hkept⟩
  | migrated u path files hmake hwritten =>
    have hnewUnit : ∀ v ∈ s.units, v.name ≠ u.name := by
      intro v hv he
      obtain ⟨r', hr', hmake'⟩ := h.made v hv
      refine hnew (List.mem_map.2 ⟨r', hr', ?_⟩)
      rw [← hc r' v hmake', he, hc r u hmake]
    rcases hwrite u hmake with ⟨message, he⟩ | ⟨t', he, hu, hsame⟩
    · cases (Prod.mk.inj (hwritten.symm.trans he)).1
    · obtain rfl := (Prod.mk.inj (hwritten.symm.trans he)).2
      have hkept' := hkept.concat (by rw [hc r u hmake]; exact hclear) hnewUnit hu hsame
      refine ⟨fun v hv => ?_, files, makeDirectories_of_isDirectory hkept'.directory, hkept'⟩
      rcases List.mem_append.1 hv with hv | hv
      · exact hearlier v hv
      · rw [List.mem_singleton.1 hv]
        exact ⟨r, List.mem_append_right _ (List.mem_singleton_self r), hmake⟩

theorem delivers_migrateExtraction (hc : c.KeepsNames) (hbase : base.Closed)
    (cancellation : Cancellation) (e : Inventory.Extraction)
    (hnames : ∀ name ∈ namesOf e.records, Path.IsName name ∧ Reachable out name)
    (hs : s.units = []) (hm : s.files.makeDirectories out = .ok base) :
    ∃ reached, reached <+: (collapse e.records).1 ∧
      Delivers c out base reached (migrateExtraction c out cancellation e s) := by
  have hfound : Delivers c out base [] (s.found e) := by
    constructor
    · intro u hu
      change u ∈ s.units at hu
      rw [hs] at hu
      exact absurd hu List.not_mem_nil
    · refine ⟨base, hm, ?_⟩
      change Kept c.write out base base s.units
      rw [hs]
      exact .nil (isDirectory_of_makeDirectories hm)
  have hstep : ∀ done r s s', done ++ [r] <+: (collapse e.records).1 → r.name ∉ done.map (·.name) →
      Delivers c out base done s → Fate c out s r s' → Delivers c out base (done ++ [r]) s' := by
    intro done r s s' hpre hnew hdone hr
    have hname : r.name ∈ namesOf e.records := by
      rw [← map_name_collapse]
      exact List.mem_map_of_mem (hpre.subset (by simp))
    obtain ⟨hn, hclear⟩ := hnames _ hname
    exact hdone.step hc hbase hn hclear hnew hr
  obtain ⟨reached, hpre, hdelivers, -⟩ := exists_reached_of_found
    (Delivers c out base) hstep (fun _ _ h => ⟨h.1, h.2⟩) cancellation hfound
  exact ⟨reached, hpre, hdelivers⟩

/-- Why a file is not written is that its path is one that no file can have, or what is there. -/
theorem isImpossible_of_write {p : Path} {bytes : ByteArray} {f : Fault}
    (h : t.write p bytes = .error f) (hf : f.cause.isImpossible = true) :
    pathCause? p.text = some f.cause := by
  have hfrom : ∀ (names : List String) (d : Path) (cause : Cause),
      t.resolveFrom d names = .error cause → cause.isImpossible = false := by
    intro names
    induction names with
    | nil => exact fun d cause h => nomatch h
    | cons n rest ih =>
      intro d cause h
      unfold resolveFrom at h
      split at h
      · cases h
        rfl
      · cases h
        rfl
      · split at h
        · cases h
          rfl
        · exact ih _ _ h
  unfold Tree.write reach at h
  cases hq : t.resolve p with
  | error cause =>
    simp only [hq, bind, Except.bind, faultAt] at h
    cases h
    unfold resolve at hq
    split at hq
    · rename_i hcause
      rw [hcause, Except.error.inj hq]
    · rw [hfrom _ _ _ hq] at hf
      cases hf
  | ok q =>
    simp only [hq, bind, Except.bind, faultAt] at h
    split at h
    · cases h
      cases hf
    · split at h
      · cases h
      · cases h
        cases hf
      · cases h
        cases hf

/-- The report is written beside the functions, or is not written. -/
theorem exists_saveReport {name : Document.Value} {reportName : String}
    (hm : s.files.makeDirectories out = .ok t) (hname : name.text? = some reportName)
    (hreport : Path.IsName reportName)
    (hpossible : ∀ cause, pathCause? (out.child reportName).text = some cause →
      cause.isImpossible = false) :
    ∃ s', saveReport out name s = .ok s' ∧ (s'.files = t ∨ ∃ n,
      t.node? (out.goal.child reportName) ≠ some .directory ∧
        s'.files = t.setNode (out.goal.child reportName) n) := by
  unfold saveReport
  rw [hm, hname]
  dsimp only
  rw [Path.join_of_isName hreport]
  cases hw : t.write (out.child reportName) (reportText s.report).toUTF8 with
  | error f =>
    have hf : f.cause.isImpossible = false := by
      by_contra hne
      rw [Bool.not_eq_false] at hne
      rw [hpossible _ (isImpossible_of_write hw hne)] at hne
      cases hne
    refine ⟨{ s with files := t }, ?_, .inl rfl⟩
    change withoutReport f { s with files := t } = _
    rw [withoutReport, hf, if_neg Bool.false_ne_true]
  | ok files =>
    refine ⟨_, rfl, .inr ?_⟩
    obtain ⟨q, hq⟩ := receives_of_write hw
    rw [hq.write] at hw
    have hgoal : q = out.goal.child reportName := by
      rw [goal_of_resolve hq.resolve_eq, Path.goal_child, Path.follow_of_isName hreport]
    rw [← hgoal]
    exact ⟨_, hq.not_directory, (Except.ok.inj hw).symm⟩

variable {st : Setting} {o : Order} {place : Place} {files : Tree} {cancellation : Cancellation}

/-- A migration returns if its functions can be looked for and its report can be saved. -/
theorem run_of_saveReport {dir : String} {sought : Except (List OrderError) Found}
    (hdir : o.outputDir.text? = some dir) (hfind : place.find st o files cancellation = .ok sought)
    (hsave : saveReport (.ofText dir) o.reportName
      ((st.carry (.ofText dir) (st.begun o (.ofText dir) files) sought).completed st.period.stop) =
        .ok s') :
    ∃ outcome, run st o place files cancellation = .ok outcome ∧ outcome.state = s' := by
  unfold run
  rw [hdir]
  dsimp only
  rw [hfind]
  cases sought with
  | error errors => exact ⟨⟨s', []⟩, congrArg (Except.map _) hsave, rfl⟩
  | ok found => exact ⟨⟨s', found.commands⟩, congrArg (Except.map _) hsave, rfl⟩

/-- What can be said of a migration before its report is saved. -/
theorem kept_carry {dir : String} (o : Order) (sought : Except (List OrderError) Found)
    (hc : st.conversion.KeepsNames) (hbase : base.Closed)
    (hm : files.makeDirectories (.ofText dir) = .ok base)
    (hnames : ∀ found, sought = .ok found → ∀ name ∈ namesOf found.extraction.records,
      Path.IsName name ∧ Reachable (.ofText dir) name) :
    let s := st.carry (.ofText dir) (st.begun o (.ofText dir) files) sought
    s.units.map (·.name) = s.report.migratedNames ∧
      (∀ found, sought = .ok found → ∀ u ∈ s.units, ∃ r ∈ (collapse found.extraction.records).1,
        st.conversion.make r = .ok (some u)) ∧
      ∃ t, s.files.makeDirectories (.ofText dir) = .ok t ∧
        Kept st.conversion.write (.ofText dir) base t s.units := by
  cases sought with
  | error errors =>
    refine ⟨rfl, fun found h => (nomatch h), base, hm, ?_⟩
    exact .nil (isDirectory_of_makeDirectories hm)
  | ok found =>
    have haccounted := accounted_migrateExtraction hc (.ofText dir) found.cancellation
      found.extraction (accounts_begun st o (.ofText dir) files)
    obtain ⟨reached, hpre, hdelivers⟩ := delivers_migrateExtraction hc hbase found.cancellation
      found.extraction (hnames found rfl) (s := st.begun o (.ofText dir) files) rfl hm
    refine ⟨haccounted.units_eq, ?_, hdelivers.kept⟩
    rintro _ ⟨⟩ u hu
    obtain ⟨r, hr, hmake⟩ := hdelivers.made u hu
    exact ⟨r, hpre.subset hr, hmake⟩

/-- A migration returns where its functions can be looked for and have names that a directory can
have, and the report too. -/
theorem exists_run {dir reportName : String} {sought : Except (List OrderError) Found}
    (hc : st.conversion.KeepsNames) (hfiles : files.Closed) (hdir : o.outputDir.text? = some dir)
    (hm : files.makeDirectories (.ofText dir) = .ok base)
    (hname : o.reportName.text? = some reportName) (hreport : Path.IsName reportName)
    (hpossible : ∀ cause, pathCause? ((Path.ofText dir).child reportName).text = some cause →
      cause.isImpossible = false)
    (hfind : place.find st o files cancellation = .ok sought)
    (hnames : ∀ found, sought = .ok found → ∀ name ∈ namesOf found.extraction.records,
      Path.IsName name ∧ Reachable (.ofText dir) name) :
    ∃ outcome, run st o place files cancellation = .ok outcome := by
  obtain ⟨-, -, t, hmt, -⟩ := kept_carry o sought hc (hfiles.makeDirectories hm) hm hnames
  generalize hs : st.carry (.ofText dir) (st.begun o (.ofText dir) files) sought = s at hmt
  have hcompleted : (s.completed st.period.stop).files.makeDirectories (.ofText dir) = .ok t := hmt
  obtain ⟨s', hsave, -⟩ := exists_saveReport hcompleted hname hreport hpossible
  obtain ⟨outcome, hrun, -⟩ := run_of_saveReport hdir hfind (hs ▸ hsave)
  exact ⟨outcome, hrun⟩

/-- For each function migrated there is a directory with its files and nothing else, whatever stood at
its name before; at every other path but that of the report is what was there once the output
directory was made. -/
theorem run_delivers {dir reportName : String} {sought : Except (List OrderError) Found}
    (hc : st.conversion.KeepsNames) (hfiles : files.Closed) (hdir : o.outputDir.text? = some dir)
    (hm : files.makeDirectories (.ofText dir) = .ok base)
    (hname : o.reportName.text? = some reportName) (hreport : Path.IsName reportName)
    (hpossible : ∀ cause, pathCause? ((Path.ofText dir).child reportName).text = some cause →
      cause.isImpossible = false)
    (hfind : place.find st o files cancellation = .ok sought)
    (hnames : ∀ found, sought = .ok found → ∀ name ∈ namesOf found.extraction.records,
      Path.IsName name ∧ Reachable (.ofText dir) name) :
    ∃ outcome, run st o place files cancellation = .ok outcome ∧
      (∀ name ∈ outcome.state.report.migratedNames, ∃ u ∈ outcome.state.units, u.name = name ∧
        (∀ found, sought = .ok found → ∃ r ∈ (collapse found.extraction.records).1,
          st.conversion.make r = .ok (some u)) ∧
        Written st.conversion.write outcome.state.files ((Path.ofText dir).goal.child name) u) ∧
      ∀ p, (∀ name ∈ outcome.state.report.migratedNames,
          p.within ((Path.ofText dir).goal.child name) = false) →
        p ≠ (Path.ofText dir).goal.child reportName →
        outcome.state.files.node? p = base.node? p ∧
          (files.node? p ≠ none → outcome.state.files.node? p = files.node? p) := by
  obtain ⟨hunits, hmade, t, hmt, hkept⟩ :=
    kept_carry o sought hc (hfiles.makeDirectories hm) hm hnames
  generalize hs : st.carry (.ofText dir) (st.begun o (.ofText dir) files) sought = s at *
  have hcompleted : (s.completed st.period.stop).files.makeDirectories (.ofText dir) = .ok t := hmt
  obtain ⟨s', hsave, hfiles'⟩ := exists_saveReport hcompleted hname hreport hpossible
  obtain ⟨outcome, hrun, rfl⟩ := run_of_saveReport hdir hfind (hs ▸ hsave)
  obtain ⟨files', path, hstate⟩ := exists_eq_of_saveReport hsave
  have hsameUnits : outcome.state.units = s.units := by
    rw [hstate]
    rfl
  have hsameNames : outcome.state.report.migratedNames = s.report.migratedNames := by
    rw [hstate]
    rfl
  refine ⟨outcome, hrun, ?_, ?_⟩
  · intro name hmem
    rw [hsameNames, ← hunits] at hmem
    obtain ⟨u, hu, rfl⟩ := List.mem_map.1 hmem
    refine ⟨u, hsameUnits ▸ hu, rfl, fun found hf => hmade found hf u hu, ?_⟩
    rcases hfiles' with he | ⟨n, hn, he⟩
    · rw [he]
      exact hkept.written u hu
    · rw [he]
      exact hkept.written_setNode hn hu
  · intro p hp hne
    have hsame : outcome.state.files.node? p = t.node? p := by
      rcases hfiles' with he | ⟨n, -, he⟩
      · rw [he]
      · rw [he, node?_setNode_of_ne hne]
    have hbase : t.node? p = base.node? p := by
      refine hkept.other p fun u hu => hp u.name ?_
      rw [hsameNames, ← hunits]
      exact List.mem_map_of_mem hu
    rw [hsame, hbase]
    exact ⟨rfl, extends_makeDirectoriesFrom hm p⟩

/-- Files of an earlier migration: one beside the directory of a function, and one in it. -/
def earlierOutput : Tree :=
  .ofFiles [(⟨false, ["out", "notes.txt"]⟩, .ofText []),
    (⟨false, ["out", "hello", "stale.txt"]⟩, .ofText [])]

theorem run_delivers_earlierOutput : ∃ outcome,
    run partialSetting { outputDir := .text "out" } (.given threeNames) earlierOutput .never =
      .ok outcome ∧
    ∀ name ∈ outcome.state.report.migratedNames, ∃ u ∈ outcome.state.units, u.name = name ∧
      Written partialConversion.write outcome.state.files ⟨false, ["out", name]⟩ u := by
  have hdirectory : earlierOutput.isDirectory (.ofText "out") = true := by decide
  have hnames : namesOf threeNames.records = ["hello", "broken", "queued"] := by decide
  have hout : (Path.ofText "out").names = ["out"] := by decide
  have hgoal : (Path.ofText "out").goal = ⟨false, ["out"]⟩ := by decide
  have hnew : ∀ found, (Except.ok ⟨threeNames, [], .never⟩ : Except (List OrderError) Found) =
      .ok found → ∀ name ∈ namesOf found.extraction.records,
        Path.IsName name ∧ Reachable (.ofText "out") name := by
    rintro _ ⟨⟩ name hname
    rw [hnames] at hname
    refine ⟨?_, reachable_of_no_points (by rw [hout]; decide) name⟩
    fin_cases hname <;> exact ⟨by decide, by decide, by decide, by decide⟩
  have hdelivers := @run_delivers earlierOutput partialSetting { outputDir := .text "out" }
    (.given threeNames) earlierOutput .never "out" "migration_report.json" _
    keepsNames_partialConversion (closed_ofFiles _) rfl
    (makeDirectories_of_isDirectory hdirectory) rfl
    ⟨by decide, by decide, by decide, by decide⟩ (by decide) rfl hnew
  rw [hgoal] at hdelivers
  obtain ⟨outcome, hrun, hwritten, -⟩ := hdelivers
  refine ⟨outcome, hrun, fun name hname => ?_⟩
  obtain ⟨u, hu, hname, -, hw⟩ := hwritten name hname
  exact ⟨u, hu, hname, hw⟩

/-- The functions migrated and the paths there are after a function of some name is migrated to some
directory. -/
def leftAfter (dir name : String) : Option (List String × List String) :=
  (run partialSetting { outputDir := .text dir }
    (.given { source := "list", records := [⟨{}, name, .http, "", "", "", "", none, ⟨0, 0⟩⟩] })
    earlierOutput .never).toOption.map fun outcome =>
      (outcome.state.report.migratedNames, outcome.state.files.entries.map (·.1.text))

/-- Where a name or the way to the output directory has points, what stood there can be lost although
nothing is migrated, and the function put together can remain. -/
theorem leftAfter_points :
    leftAfter "out" ".." = some ([], ["out", "out/migration_report.json"]) ∧
    leftAfter "out/hello/.." "hello" = some ([],
      ["out", "out/notes.txt", "out/.hello-0", "out/.hello-0/index.ts", "out/.hello-0/deno.json",
        "out/hello", "out/migration_report.json"]) := by
  decide +kernel

end BackendMigration.Migration
