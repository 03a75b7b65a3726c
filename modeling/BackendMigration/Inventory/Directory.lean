import BackendMigration.Cancellation
import BackendMigration.File.Contents
import BackendMigration.Inventory.Extraction
import BackendMigration.Recognition.Scan

/-! Functions in the source files of a directory. -/
namespace BackendMigration.Inventory

/-- Directories that hold no sources of their own. -/
def skippedDirectories : List String :=
  ["node_modules", ".git", "dist", "build", "lib", "coverage", ".firebase", ".idea", ".vscode"]

def sourceEndings : List String := [".js", ".ts", ".mjs", ".cjs"]

/-- Endings of files that are made, not written. -/
def excludedEndings : List String := [".d.ts", ".min.js"]

def endsWithAny (endings : List String) (name : String) : Bool :=
  endings.any fun e => e.toList.isSuffixOf name.toList

/-- The name is one of a source file. -/
def isSourceFile (name : String) : Bool :=
  endsWithAny sourceEndings name && !endsWithAny excludedEndings name

/-- The order of a walk, on the names below its root: the files of a directory go before its
subdirectories, and names of one kind are in order. -/
def walksBefore : List String → List String → Bool
  | [], _ => true
  | _, [] => false
  | [a], [b] => a ≤ b
  | [_], _ => true
  | _, [_] => false
  | a :: r, b :: s => a < b || (a == b && walksBefore r s)

/-- The names lead to a source file, through no skipped directory. -/
def isSourcePath (names : List String) : Bool :=
  names.getLast?.any isSourceFile && names.dropLast.all fun n => !skippedDirectories.contains n

/-- The names below a directory that lead to files, as the tree holds them. -/
def filesBelow (t : File.Tree) (root : File.Path) : List (List String) :=
  match t.resolve root with
  | .error _ => []
  | .ok top => t.entries.filterMap fun (p, node) =>
    match node with
    | .file _ => if p.within top then some (p.names.drop top.names.length) else none
    | .directory => none

/-- The source files below a directory, in the order of the walk. -/
def sourceFiles (t : File.Tree) (directory : String) : List File.Path :=
  let root := File.Path.ofText directory
  if t.isDirectory (.literal directory) then
    (((filesBelow t root).filter isSourcePath).mergeSort walksBefore).map fun names =>
      root.join ⟨false, names⟩
  else []

/-- What scanning files yields. -/
structure Scanned where
  records : List FunctionRecord := []
  warnings : List String := []
  files : Nat := 0
  cancelled : Bool := false
  deriving DecidableEq, Repr

def unreadableWarning (p : File.Path) (f : File.ContentsFault) : String :=
  "Could not read " ++ p.text ++ ": " ++ f.message

/-- The records of a file, or the warning that it cannot be read. -/
def scanFile (registry : Registry) (t : File.Tree) (p : File.Path) :
    Except String (List FunctionRecord) :=
  match t.readText p with
  | .ok text => .ok (Recognition.scan registry text p.text)
  | .error f => .error (unreadableWarning p f)

/-- What a file contributes, in front of what the files after it contribute. -/
def Scanned.withFile (outcome : Except String (List FunctionRecord)) (s : Scanned) : Scanned :=
  match outcome with
  | .ok records => { s with records := records ++ s.records, files := s.files + 1 }
  | .error warning => { s with warnings := warning :: s.warnings, files := s.files + 1 }

/-- Scan files one after another, until cancelled. -/
def scanFiles (registry : Registry) (t : File.Tree) :
    Cancellation → List File.Path → Scanned × Cancellation
  | c, [] => ({}, c)
  | c, p :: rest =>
    match c.ask with
    | (true, c) => ({ cancelled := true }, c)
    | (false, c) =>
      let (s, c) := scanFiles registry t c rest
      (s.withFile (scanFile registry t p), c)

/-- Find the functions in the source files below a directory. -/
def extractDirectory (registry : Registry) (t : File.Tree) (directory : String)
    (cancellation : Cancellation) (period : Time.Period) : Extraction × Cancellation :=
  let (s, c) := scanFiles registry t cancellation (sourceFiles t directory)
  ({ source := directory
     records := s.records
     filesScanned := s.files
     warnings := s.warnings
     cancelled := s.cancelled
     period := some period }, c)

/-- Find the functions below a directory that any text names. One that is no path is refused. -/
def extractNamed (registry : Registry) (t : File.Tree) (directory : String)
    (cancellation : Cancellation) (period : Time.Period) :
    Except File.Fault (Extraction × Cancellation) :=
  match (File.pathCause? directory).filter (·.isImpossible) with
  | some cause => .error ⟨cause, directory⟩
  | none => .ok (extractDirectory registry t directory cancellation period)

/-- Without cancellation every file is scanned. -/
theorem files_scanFiles_never (registry : Registry) (t : File.Tree) (ps : List File.Path) :
    (scanFiles registry t .never ps).1.files = ps.length := by
  have h : ∀ ps, (scanFiles registry t .never ps).1.files = ps.length := by
    intro ps
    induction ps with
    | nil => rfl
    | cons p rest ih =>
      simp only [scanFiles, Cancellation.ask_never, Scanned.withFile]
      split <;> simp [ih]
  exact h ps

end BackendMigration.Inventory
