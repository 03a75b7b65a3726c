import BackendMigration.Proofs.Inventory.Extraction
import BackendMigration.Proofs.Keyed
import BackendMigration.Proofs.Migration.Account

/-! Functions that are declared more than once: the last declaration of a name counts, at the place of the
first one, and each declaration that replaces one before it is warned of. -/
namespace BackendMigration.Migration

/-- The records of one name, in their order. -/
def declarations (name : String) (records : List FunctionRecord) : List FunctionRecord :=
  records.filter (·.name == name)

/-- Each item but the first, with the one just before it. -/
def successions {α : Type} (l : List α) : List (α × α) := l.tail.zip l

/-- Of the records of a name the last one is kept, where the name is first seen. There is a warning for each
of the others: those for one name pair its records, each with the one just before it. -/
structure Collapsed (records kept : List FunctionRecord) (warnings : List String) : Prop where
  names_eq : kept.map (·.name) = namesOf records
  last : ∀ r ∈ kept, (declarations r.name records).getLast? = some r
  length_eq : warnings.length + (namesOf records).length = records.length
  replaced : ∃ pairs : List (FunctionRecord × FunctionRecord),
    warnings = pairs.map (fun p => duplicateWarning p.1 p.2) ∧
      (pairs.map (·.1)).Sublist records ∧
      ∀ name, pairs.filter (·.1.name == name) = successions (declarations name records)

variable {records : List FunctionRecord} {r previous : FunctionRecord} {name : String}

theorem declarations_concat (name : String) (records : List FunctionRecord) (r : FunctionRecord) :
    declarations name (records ++ [r]) =
      if r.name = name then declarations name records ++ [r] else declarations name records := by
  rw [declarations, List.filter_append]
  by_cases h : r.name = name
  · rw [if_pos h, List.filter_cons_of_pos (by simpa using h)]
    rfl
  · rw [if_neg h, List.filter_cons_of_neg (by simpa using h)]
    exact List.append_nil _

theorem declarations_eq_nil_iff : declarations name records = [] ↔ name ∉ namesOf records := by
  rw [declarations, List.filter_eq_nil_iff, namesOf, List.mem_eraseDups]
  simp

theorem successions_concat {α : Type} {l : List α} {a b : α} (h : l.getLast? = some b) :
    successions (l ++ [a]) = successions l ++ [(a, b)] := by
  obtain ⟨front, rfl⟩ := List.getLast?_eq_some_iff.1 h
  have hlength : (front ++ [b]).tail.length = front.length := by simp
  have htail : (front ++ [b] ++ [a]).tail = (front ++ [b]).tail ++ [a] :=
    List.tail_append_of_ne_nil (by simp)
  have hpairs : successions (front ++ [b]) = (front ++ [b]).tail.zip front := by
    rw [successions, ← List.append_nil (front ++ [b]).tail, List.zip_append hlength]
    simp
  rw [successions, htail, List.append_assoc, List.zip_append hlength, hpairs]
  rfl

/-- What is known while records are collapsed: what is kept under each name, and which records were
replaced. -/
structure Collapsing (records : List FunctionRecord) (acc : Keyed FunctionRecord × List String) : Prop where
  last : ∀ name, Keyed.get? name acc.1 = (declarations name records).getLast?
  length_eq : acc.2.length + (namesOf records).length = records.length
  replaced : ∃ pairs : List (FunctionRecord × FunctionRecord),
    acc.2 = pairs.map (fun p => duplicateWarning p.1 p.2) ∧
      (pairs.map (·.1)).Sublist records ∧
      ∀ name, pairs.filter (·.1.name == name) = successions (declarations name records)

/-- A record of a new name is kept at the end, and one of a known name replaces the last one of it. -/
theorem Collapsing.concat {acc : Keyed FunctionRecord × List String} (h : Collapsing records acc)
    (r : FunctionRecord) : Collapsing (records ++ [r]) (collapseStep acc r) := by
  have hlast : ∀ name, Keyed.get? name (collapseStep acc r).1 =
      (declarations name (records ++ [r])).getLast? := by
    intro name
    rw [collapseStep, Keyed.get?_set, declarations_concat]
    by_cases hname : r.name = name
    · rw [if_pos hname, if_pos hname.symm, List.getLast?_concat]
    · rw [if_neg hname, if_neg fun he => hname he.symm, h.last]
  obtain ⟨pairs, hwarnings, hreplacing, hpairs⟩ := h.replaced
  cases hprevious : Keyed.get? r.name acc.1 with
  | none =>
    have hnew : declarations r.name records = [] := by
      rwa [h.last, List.getLast?_eq_none_iff] at hprevious
    have hstep : (collapseStep acc r).2 = acc.2 := by
      rw [collapseStep, hprevious]
    refine ⟨hlast, ?_, pairs, hstep.trans hwarnings, hreplacing.trans (List.sublist_append_left ..), ?_⟩
    · rw [hstep, namesOf_concat, if_neg (declarations_eq_nil_iff.1 hnew), List.length_append,
        List.length_append, ← h.length_eq]
      rfl
    · intro name
      rw [hpairs, declarations_concat]
      by_cases hname : r.name = name
      · rw [if_pos hname, ← hname, hnew]
        rfl
      · rw [if_neg hname]
  | some previous =>
    have hdeclared : (declarations r.name records).getLast? = some previous := by
      rw [← h.last, hprevious]
    have hknown : r.name ∈ namesOf records := by
      by_contra hnot
      rw [declarations_eq_nil_iff.2 hnot] at hdeclared
      cases hdeclared
    have hstep : (collapseStep acc r).2 = acc.2 ++ [duplicateWarning r previous] := by
      rw [collapseStep, hprevious]
    refine ⟨hlast, ?_, pairs ++ [(r, previous)], ?_, ?_, ?_⟩
    · rw [hstep, namesOf_concat, if_pos hknown, List.length_append, List.length_append, ← h.length_eq]
      simp only [List.length_singleton]
      omega
    · rw [hstep, hwarnings, List.map_append]
      rfl
    · rw [List.map_append]
      exact hreplacing.append (List.Sublist.refl [r])
    · intro name
      rw [List.filter_append, hpairs, declarations_concat]
      by_cases hname : r.name = name
      · subst hname
        rw [if_pos rfl, successions_concat hdeclared, List.filter_cons_of_pos (by simp)]
        rfl
      · rw [if_neg hname, List.filter_cons_of_neg (by simpa using hname)]
        exact List.append_nil _

theorem collapsing_foldl (records : List FunctionRecord) :
    Collapsing records (records.foldl collapseStep ([], [])) := by
  induction records using List.reverseRecOn with
  | nil => exact ⟨fun _ => rfl, rfl, [], rfl, .refl [], fun _ => rfl⟩
  | append_singleton records r ih =>
    rw [List.foldl_append]
    exact ih.concat r

theorem collapsed_collapse (records : List FunctionRecord) :
    Collapsed records (collapse records).1 (collapse records).2 := by
  obtain ⟨hlast, hlength, hreplaced⟩ := collapsing_foldl records
  obtain ⟨hkeys, hnames⟩ := foldl_collapseStep records
  refine ⟨map_name_collapse records, fun r hr => ?_, hlength, hreplaced⟩
  obtain ⟨e, he, rfl⟩ := List.mem_map.1 hr
  have hnodup : (Keyed.keys (records.foldl collapseStep ([], [])).1).Nodup := by
    rw [hkeys]
    exact nodup_namesOf records
  rw [← hlast, hnames e he, Keyed.get?_of_mem hnodup he]

/-! What is made of the records that are kept. -/

/-- The function of a name was made of the last record of that name. -/
def MadeOfLast (c : Conversion) (records : List FunctionRecord) (name : String) (u : GeneratedUnit) : Prop :=
  ∃ r, (declarations name records).getLast? = some r ∧ c.make r = .ok (some u)

/-- A report begins with some warnings, and the functions written, in the order of their names in the
report, were made of the last records of these names. -/
structure TakesLast (c : Conversion) (records : List FunctionRecord) (warnings : List String) (s : State) :
    Prop where
  warned : warnings <+: s.report.warnings
  made : List.Forall₂ (MadeOfLast c records) s.report.migratedNames s.units

variable {c : Conversion} {out : File.Path} {warnings : List String} {s s' : State}

theorem TakesLast.warn (h : TakesLast c records warnings s) (message : String) :
    warnings <+: (s.report.addWarning message).warnings :=
  h.warned.trans (List.prefix_append _ _)

/-- A record that is the last one of its name is taken, whatever becomes of it. -/
theorem TakesLast.step (h : TakesLast c records warnings s)
    (hr : (declarations r.name records).getLast? = some r) (hfate : Fate c out s r s') :
    TakesLast c records warnings s' := by
  cases hfate with
  | failed message files hfiles =>
    refine ⟨h.warned, ?_⟩
    have hnames := (s.report.addError
      ("Failed to migrate " ++ r.name ++ ": " ++ message)).migratedNames_addFailed
      r.name r.kind.name (some message)
    exact hnames ▸ h.made
  | passed => exact ⟨h.warn (unsupportedWarning r), h.made⟩
  | migrated u path files hmake hwrite =>
    refine ⟨h.warned, ?_⟩
    have hnames := s.report.migratedNames_addMigrated r.name r.kind.name (some path.text) u.needsReview
    rw [hnames]
    exact List.rel_append h.made (.cons ⟨r, hr, hmake⟩ .nil)

theorem takesLast_migrateExtraction (cancellation : Cancellation) (e : Inventory.Extraction)
    (hs : s.units = [] ∧ s.report.migratedNames = [] ∧ s.report.warnings = []) :
    TakesLast c e.records (e.warnings ++ (collapse e.records).2)
      (migrateExtraction c out cancellation e s) := by
  obtain ⟨hunits, hnames, hwarnings⟩ := hs
  have hfound : TakesLast c e.records (e.warnings ++ (collapse e.records).2) (s.found e) := by
    constructor
    · change _ <+: s.report.warnings ++ e.warnings ++ (collapse e.records).2
      rw [hwarnings, List.nil_append]
    · change List.Forall₂ _ s.report.migratedNames s.units
      rw [hnames, hunits]
      exact .nil
  have hstep : ∀ done r s s', done ++ [r] <+: (collapse e.records).1 → r.name ∉ done.map (·.name) →
      TakesLast c e.records (e.warnings ++ (collapse e.records).2) s → Fate c out s r s' →
      TakesLast c e.records (e.warnings ++ (collapse e.records).2) s' := by
    intro done r s s' hpre _ h hfate
    have hr : r ∈ (collapse e.records).1 := hpre.subset (by simp)
    exact h.step ((collapsed_collapse e.records).last r hr) hfate
  obtain ⟨-, -, h, -⟩ := exists_reached_of_found
    (fun _ => TakesLast c e.records (e.warnings ++ (collapse e.records).2)) hstep
    (fun _ _ h => ⟨h.warn cancelledWarning, h.made⟩) cancellation hfound
  exact h

variable {st : Setting} {o : Order} {place : Place} {files : File.Tree} {cancellation : Cancellation}

theorem find_ordered (h : o.errors files = .ok []) : Place.ordered.find st o files cancellation =
    (extractOrdered st o files cancellation).map .ok := by
  unfold Place.find
  rw [h]

theorem extractOrdered_of_text {directory : String} (hsource : o.sourceDir = .text directory)
    (hne : directory ≠ "") : extractOrdered st o files cancellation =
      .ok ⟨(Inventory.extractDirectory st.registry files directory cancellation st.period).1, [],
        (Inventory.extractDirectory st.registry files directory cancellation st.period).2⟩ := by
  have hnamed : o.sourceDir.isFalsy = false := by
    rw [hsource]
    simpa [Document.Value.isFalsy] using hne
  rw [extractOrdered, hnamed, hsource, if_neg Bool.false_ne_true]
  dsimp only [Document.Value.text?]

/-- The functions of an ordered directory stand in the order of the walk through its files. -/
theorem records_of_find {found : Found} {directory : String} (closed : files.Closed)
    (distinct : files.Distinct) (hsource : o.sourceDir = .text directory) (hne : directory ≠ "")
    (h : Place.ordered.find st o files cancellation = .ok (.ok found)) :
    found.extraction.records = ((Inventory.walkedFiles files directory).take
      found.extraction.filesScanned).flatMap (Inventory.recordsOf st.registry files) := by
  have hfound : extractOrdered st o files cancellation = .ok found := by
    unfold Place.find at h
    dsimp only at h
    split at h
    · cases h
    · obtain ⟨found', hfound, heq⟩ := exists_of_map_eq_ok h
      rw [hfound, Except.ok.inj heq]
    · cases h
  have hextraction : (Inventory.extractDirectory st.registry files directory cancellation st.period).1 =
      found.extraction := by
    rw [extractOrdered_of_text hsource hne] at hfound
    rw [← Except.ok.inj hfound]
  have hfollows := Inventory.follows_scanFiles st.registry files cancellation
    (Inventory.walkedFiles files directory)
  rw [← Inventory.scanned_extractDirectory closed distinct directory cancellation st.period,
    hextraction] at hfollows
  exact hfollows.records

namespace DeclaredTwice

def extraction : Inventory.Extraction where
  source := "functions"
  records := [("greet", "early", "a.js"), ("part", "bye", "a.js"), ("greet", "late", "b.js")].map
    fun (name, body, sourceFile) => { name, kind := .http, body, sourceFile }

/-- Bodies as they are. -/
def conversion : Conversion where
  make r := .ok (some ⟨r.name, r.kind, r.body, .null, none, false⟩)

def setting : Setting where
  conversion := conversion
  id := "first"
  period := ⟨⟨⟨2024, 5, 1⟩, {}, some 0⟩, ⟨⟨2024, 5, 1⟩, {}, some 0⟩⟩

/-- One source file, which declares nothing. -/
def source : File.Tree := .ofFiles [(⟨false, ["src", "index.js"]⟩, .file .empty)]

def order : Order := { sourceDir := .text "src", outputDir := .text "out" }

/-- What the directory of that file yields. -/
def found : Found := ⟨⟨"src", [], 1, [], [], false, some setting.period, none⟩, [], .never⟩

theorem find_source : Place.ordered.find setting order source .never = .ok (.ok found) := by
  have hdirectory : source.isDirectory (.literal "src") = true := by decide
  have hfiles : Inventory.sourceFiles source "src" = [⟨false, ["src", "index.js"]⟩] := by
    have hbelow : (Inventory.filesBelow source (.ofText "src")).filter Inventory.isSourcePath =
        [["index.js"]] := by decide
    rw [Inventory.sourceFiles, hbelow, List.mergeSort_singleton, if_pos hdirectory]
    decide
  have herrors : order.errors source = .ok [] := by
    change Except.ok (if source.isDirectory (.literal "src") then _ else _) = _
    rw [if_pos hdirectory]
  have hextract : Inventory.extractDirectory .standard source "src" .never setting.period =
      (found.extraction, .never) := by
    rw [Inventory.extractDirectory, hfiles]
    decide +kernel
  have hregistry : setting.registry = .standard := rfl
  rw [find_ordered herrors, extractOrdered_of_text rfl (by decide), hregistry, hextract]
  rfl

theorem exists_run_source : ∃ outcome, run setting order .ordered source .never = .ok outcome := by
  have hfound : (Place.given found.extraction).find setting order source .never = .ok (.ok found) := rfl
  have hsame : run setting order .ordered source .never =
      run setting order (.given found.extraction) source .never := by
    unfold run
    simp only [find_source, hfound]
  have hok : (run setting order (.given found.extraction) source .never).toOption.isSome = true := by
    decide +kernel
  rw [hsame]
  cases hrun : run setting order (.given found.extraction) source .never with
  | error f =>
    rw [hrun] at hok
    cases hok
  | ok outcome => exact ⟨outcome, rfl⟩

end DeclaredTwice
end BackendMigration.Migration
