import BackendMigration.Proofs.Inventory.Walk

/-! What is reported of a directory is what its files yield, in the order of the walk, up to the first
check that says to stop. -/
namespace BackendMigration

/-- The next answers, one after another. -/
def Cancellation.answers (c : Cancellation) : Nat → List Bool
  | 0 => []
  | n + 1 => c.ask.1 :: c.ask.2.answers n

@[simp] theorem Cancellation.answers_never (n : Nat) :
    never.answers n = List.replicate n false := by
  induction n with
  | zero => rfl
  | succ n ih =>
    rw [answers, ask_never, ih]
    rfl

namespace Inventory

open File (Path Tree)

variable {registry : Registry} {t : Tree}

/-- The functions in a file; none if it cannot be read. -/
def recordsOf (registry : Registry) (t : Tree) (p : Path) : List FunctionRecord :=
  match t.readText p with
  | .ok text => Recognition.scan registry text p.text
  | .error _ => []

/-- The warning that a file cannot be read; none if it can. -/
def warningsOf (t : Tree) (p : Path) : List String :=
  match t.readText p with
  | .ok _ => []
  | .error f => [unreadableWarning p f]

/-- The files before the first check that says to stop are scanned, in order: the functions in them
and the warnings of those that cannot be read are reported. -/
structure Follows (registry : Registry) (t : Tree) (order : List Path) (answers : List Bool)
    (s : Scanned) : Prop where
  files : s.files = (answers.takeWhile (!·)).length
  records : s.records = (order.take s.files).flatMap (recordsOf registry t)
  warnings : s.warnings = (order.take s.files).flatMap (warningsOf t)
  cancelled : s.cancelled = true ↔ true ∈ answers

theorem records_withFile (p : Path) (s : Scanned) :
    (s.withFile (scanFile registry t p)).records = recordsOf registry t p ++ s.records := by
  unfold scanFile recordsOf
  cases t.readText p <;> rfl

theorem warnings_withFile (p : Path) (s : Scanned) :
    (s.withFile (scanFile registry t p)).warnings = warningsOf t p ++ s.warnings := by
  unfold scanFile warningsOf
  cases t.readText p <;> rfl

@[simp] theorem files_withFile (outcome : Except String (List FunctionRecord)) (s : Scanned) :
    (s.withFile outcome).files = s.files + 1 := by
  cases outcome <;> rfl

@[simp] theorem cancelled_withFile (outcome : Except String (List FunctionRecord)) (s : Scanned) :
    (s.withFile outcome).cancelled = s.cancelled := by
  cases outcome <;> rfl

/-- One more file in front, at which the check says to go on. -/
theorem Follows.withFile {order : List Path} {answers : List Bool} {s : Scanned}
    (h : Follows registry t order answers s) (p : Path) :
    Follows registry t (p :: order) (false :: answers) (s.withFile (scanFile registry t p)) where
  files := by
    rw [files_withFile, h.files, List.takeWhile_cons_of_pos rfl, List.length_cons]
  records := by
    rw [files_withFile, records_withFile, h.records, List.take_succ_cons, List.flatMap_cons]
  warnings := by
    rw [files_withFile, warnings_withFile, h.warnings, List.take_succ_cons, List.flatMap_cons]
  cancelled := by
    rw [cancelled_withFile, h.cancelled]
    simp

theorem follows_scanFiles (registry : Registry) (t : Tree) (c : Cancellation) (order : List Path) :
    Follows registry t order (c.answers order.length) (scanFiles registry t c order).1 := by
  induction order generalizing c with
  | nil => exact ⟨rfl, rfl, rfl, by simp [scanFiles, Cancellation.answers]⟩
  | cons p rest ih =>
    rw [List.length_cons, Cancellation.answers]
    obtain ⟨⟨stop, c'⟩, hask⟩ : ∃ asked, c.ask = asked := ⟨_, rfl⟩
    cases stop with
    | true =>
      simp only [scanFiles, hask]
      exact ⟨rfl, rfl, rfl, by simp⟩
    | false =>
      simp only [scanFiles, hask]
      exact (ih c').withFile p

/-- What an extraction reports of its files. -/
def Extraction.scanned (e : Extraction) : Scanned :=
  ⟨e.records, e.warnings, e.filesScanned, e.cancelled⟩

@[simp] theorem Extraction.files_scanned (e : Extraction) : e.scanned.files = e.filesScanned := rfl

@[simp] theorem Extraction.records_scanned (e : Extraction) : e.scanned.records = e.records := rfl

theorem scanned_extractDirectory (closed : t.Closed) (distinct : t.Distinct) (directory : String)
    (checks : Cancellation) (period : Time.Period) :
    (extractDirectory registry t directory checks period).1.scanned =
      (scanFiles registry t checks (walkedFiles t directory)).1 := by
  rw [← sourceFiles_eq_walkedFiles closed distinct, extractDirectory]
  cases scanFiles registry t checks (sourceFiles t directory)
  rfl

/-- What is found before a walk is stopped comes first in what is found by the whole walk. -/
theorem Follows.records_begin {order : List Path} {answers answers' : List Bool}
    {s s' : Scanned} (h : Follows registry t order answers s)
    (h' : Follows registry t order answers' s') (hall : s'.files = order.length) :
    s.records <+: s'.records := by
  rw [h.records, h'.records, hall, List.take_length]
  have hfirst := List.take_prefix s.files order
  exact hfirst.flatMap _

/-- The extraction of a directory visits each source file below it once, in the order of a walk that
skips some directories, and reports what the files before the first check that says to stop yield. -/
theorem extractDirectory_follows_walk (registry : Registry) (t : Tree) (closed : t.Closed)
    (distinct : t.Distinct) (directory : String) :
    (walkedFiles t directory).Nodup ∧
    (∀ path, path ∈ walkedFiles t directory ↔ t.isDirectory (.literal directory) = true ∧
      ∃ names, path = (Path.ofText directory).join ⟨false, names⟩ ∧
        (∃ bytes, t.node? ((Path.ofText directory).goal.below names) = some (.file bytes)) ∧
        names.getLast?.any isSourceFile = true ∧
        ∀ name ∈ names.dropLast, name ∉ skippedDirectories) ∧
    ∀ period, (extractDirectory registry t directory .never period).1.filesScanned =
        (walkedFiles t directory).length ∧
      ∀ checks : Cancellation,
        Follows registry t (walkedFiles t directory)
          (checks.answers (walkedFiles t directory).length)
          (extractDirectory registry t directory checks period).1.scanned ∧
        (extractDirectory registry t directory checks period).1.records <+:
          (extractDirectory registry t directory .never period).1.records := by
  have follows (period : Time.Period) (checks : Cancellation) :
      Follows registry t (walkedFiles t directory)
        (checks.answers (walkedFiles t directory).length)
        (extractDirectory registry t directory checks period).1.scanned := by
    rw [scanned_extractDirectory closed distinct]
    exact follows_scanFiles registry t checks _
  refine ⟨nodup_walkedFiles distinct directory, fun path => mem_walkedFiles closed, fun period => ?_⟩
  have hall : (extractDirectory registry t directory .never period).1.filesScanned =
      (walkedFiles t directory).length := by
    have hfiles := (follows period .never).files
    rwa [Extraction.files_scanned, Cancellation.answers_never, List.takeWhile_replicate_eq_filter,
      List.filter_replicate_of_pos rfl, List.length_replicate] at hfiles
  refine ⟨hall, fun checks => ⟨follows period checks, ?_⟩⟩
  have hprefix := (follows period checks).records_begin (follows period .never)
  rw [Extraction.files_scanned, Extraction.records_scanned, Extraction.records_scanned] at hprefix
  exact hprefix hall

/-- A file two directories down, one in a skipped directory, and a check that says to stop after one
file. -/
theorem extractDirectory_follows_walk_nested :
    let t := Tree.ofFiles [(⟨false, ["src", "index.js"]⟩, .file .empty),
      (⟨false, ["src", "api", "pay.ts"]⟩, .file .empty),
      (⟨false, ["src", "lib", "pay.js"]⟩, .file .empty)]
    t.Closed ∧ t.Distinct ∧ ⟨false, ["src", "api", "pay.ts"]⟩ ∈ walkedFiles t "src" ∧
      ⟨false, ["src", "lib", "pay.js"]⟩ ∉ walkedFiles t "src" ∧
      ∀ period, (extractDirectory .standard t "src" ⟨some 1⟩ period).1.filesScanned = 1 := by
  intro t
  have closed : t.Closed := Tree.closed_ofFiles _
  have distinct : t.Distinct := Tree.distinct_ofFiles _
  obtain ⟨-, hmem, hfollows⟩ := extractDirectory_follows_walk .standard t closed distinct "src"
  have hroot : Path.ofText "src" = ⟨false, ["src"]⟩ := by decide
  have hdirectory : t.isDirectory (.literal "src") = true := by decide
  have hmet : (⟨false, ["src", "api", "pay.ts"]⟩ : Path) ∈ walkedFiles t "src" := by
    refine (hmem _).2 ⟨hdirectory, ["api", "pay.ts"], ?_, ⟨.empty, ?_⟩, ?_, ?_⟩
    · rw [hroot]
      rfl
    · rw [hroot]
      decide
    · decide
    · decide
  have hskipped : (⟨false, ["src", "lib", "pay.js"]⟩ : Path) ∉ walkedFiles t "src" := by
    intro h
    obtain ⟨-, names, hpath, -, -, hskip⟩ := (hmem _).1 h
    have hnames : names = ["lib", "pay.js"] := by
      rw [hroot] at hpath
      exact (join_names_inj ⟨false, ["src"]⟩ hpath).symm
    rw [hnames] at hskip
    exact hskip "lib" (by decide) (by decide)
  refine ⟨closed, distinct, hmet, hskipped, fun period => ?_⟩
  obtain ⟨n, hn⟩ := Nat.exists_eq_succ_of_ne_zero
    (Nat.ne_of_gt (List.length_pos_of_mem hmet))
  have hfiles := ((hfollows period).2 ⟨some 1⟩).1.files
  rw [Extraction.files_scanned, hn] at hfiles
  rw [hfiles]
  cases n <;> rfl

end Inventory
end BackendMigration
