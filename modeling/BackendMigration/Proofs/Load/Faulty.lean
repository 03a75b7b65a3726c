import BackendMigration.Proofs.Keyed
import BackendMigration.Proofs.Load.Chunks
import Mathlib.Data.List.Nodup

/-! Loading a directory: a file at fault has a result of its own, and the others fare as they do without
it. -/
namespace BackendMigration

namespace Keyed

variable {α : Type} {key other : String} {es : Keyed α}

theorem erase_cons_self (value : α) : erase key ((key, value) :: es) = erase key es :=
  List.filter_cons_of_neg (by simp)

theorem erase_cons_of_ne (h : other ≠ key) (value : α) :
    erase key ((other, value) :: es) = (other, value) :: erase key es :=
  List.filter_cons_of_pos (by simpa using h)

theorem set_cons_self (value old : α) : set key value ((key, old) :: es) = (key, value) :: es :=
  if_pos rfl

theorem set_cons_of_ne (h : other ≠ key) (value old : α) :
    set key value ((other, old) :: es) = (other, old) :: set key value es := if_neg h

theorem erase_set_self (value : α) : erase key (set key value es) = erase key es := by
  induction es with
  | nil => exact erase_cons_self value
  | cons e rest ih =>
    obtain ⟨k, v⟩ := e
    by_cases hk : k = key
    · rw [hk, set_cons_self, erase_cons_self, erase_cons_self]
    · rw [set_cons_of_ne hk, erase_cons_of_ne hk, erase_cons_of_ne hk, ih]

theorem erase_set_of_ne (h : other ≠ key) (value : α) :
    erase key (set other value es) = set other value (erase key es) := by
  induction es with
  | nil => exact erase_cons_of_ne h value
  | cons e rest ih =>
    obtain ⟨k, v⟩ := e
    by_cases ho : k = other
    · rw [ho, set_cons_self, erase_cons_of_ne h, erase_cons_of_ne h, set_cons_self]
    · rw [set_cons_of_ne ho]
      by_cases hk : k = key
      · rw [hk, erase_cons_self, erase_cons_self, ih]
      · rw [erase_cons_of_ne hk, erase_cons_of_ne hk, set_cons_of_ne ho, ih]

theorem erase_eq_self (h : key ∉ keys es) : erase key es = es := by
  refine List.filter_eq_self.2 fun e he => bne_iff_ne.2 ?_
  rintro rfl
  exact h (List.mem_map_of_mem he)

theorem get?_eq_none_iff : get? key es = none ↔ key ∉ keys es := by
  rw [get?, Option.map_eq_none_iff, List.find?_eq_none]
  simp only [keys, List.mem_map, not_exists, not_and, beq_iff_eq]

end Keyed

namespace Load.Loader

open Document (Value)

variable {l : Loader} {t : File.Tree} {p : File.Path} {period : Time.Period} {name key : String}
  {e : Relation.ReadError} {results : Keyed Result} {c : Connection}

/-- The result of one file, and the connection after it. -/
def fileResult (l : Loader) (t : File.Tree) (p : File.Path) (period : Time.Period) (name : String)
    (c : Connection) : Except Relation.ReadError (Result × Connection) :=
  match Relation.read t (p.child name) with
  | .error e => if e.isOfFile then .ok (unreadable (File.Path.stem name) e, c) else .error e
  | .ok records => .ok (l.loadTable (File.Path.stem name) (records.map .ofJson) period c)

theorem fileResult_of_error (hread : Relation.read t (p.child name) = .error e) :
    l.fileResult t p period name c =
      if e.isOfFile then .ok (unreadable (File.Path.stem name) e, c) else .error e := by
  delta fileResult
  rw [hread]

theorem fileResult_of_ok {records : List Json} (hread : Relation.read t (p.child name) = .ok records) :
    l.fileResult t p period name c =
      .ok (l.loadTable (File.Path.stem name) (records.map .ofJson) period c) := by
  delta fileResult
  rw [hread]

/-- The result of a file does not depend on those of the files before it, and is put among them. -/
theorem loadFiles_cons (rest : List String) (results : Keyed Result) (c : Connection) :
    l.loadFiles t p period (name :: rest) results c =
      (l.fileResult t p period name c).bind fun o =>
        l.loadFiles t p period rest (Keyed.set (File.Path.stem name) o.1 results) o.2 := by
  rw [loadFiles.eq_def]
  dsimp only
  cases hread : Relation.read t (p.child name) with
  | error e =>
    rw [fileResult_of_error hread]
    dsimp only
    split <;> rfl
  | ok records =>
    rw [fileResult_of_ok hread]
    rfl

theorem loadFiles_append (before after : List String) (results : Keyed Result) (c : Connection) :
    l.loadFiles t p period (before ++ after) results c =
      (l.loadFiles t p period before results c).bind fun o =>
        l.loadFiles t p period after o.1 o.2 := by
  induction before generalizing results c with
  | nil => rfl
  | cons name rest ih =>
    rw [List.cons_append, loadFiles_cons, loadFiles_cons]
    cases l.fileResult t p period name c with
    | error e => rfl
    | ok o => exact ih _ _

/-- Whether there is a result under another key makes no difference. -/
theorem loadFiles_erase {names : List String} (hkey : key ∉ names.map File.Path.stem)
    (results : Keyed Result) (c : Connection) :
    l.loadFiles t p period names (Keyed.erase key results) c =
      (l.loadFiles t p period names results c).map fun o => (Keyed.erase key o.1, o.2) := by
  induction names generalizing results c with
  | nil => rfl
  | cons name rest ih =>
    rw [List.map_cons, List.mem_cons, not_or] at hkey
    rw [loadFiles_cons, loadFiles_cons]
    cases l.fileResult t p period name c with
    | error e => rfl
    | ok o =>
      have hset : Keyed.erase key (Keyed.set (File.Path.stem name) o.1 results) =
          Keyed.set (File.Path.stem name) o.1 (Keyed.erase key results) :=
        Keyed.erase_set_of_ne (Ne.symm hkey.1) o.1
      simp only [Except.bind]
      rw [← hset]
      exact ih hkey.2 _ _

theorem get?_loadFiles {names : List String} (hkey : key ∉ names.map File.Path.stem)
    {results results' : Keyed Result} {c c' : Connection}
    (h : l.loadFiles t p period names results c = .ok (results', c')) :
    Keyed.get? key results' = Keyed.get? key results := by
  induction names generalizing results c with
  | nil =>
    cases h
    rfl
  | cons name rest ih =>
    rw [List.map_cons, List.mem_cons, not_or] at hkey
    rw [loadFiles_cons] at h
    cases hfile : l.fileResult t p period name c with
    | error e =>
      rw [hfile] at h
      cases h
    | ok o =>
      rw [hfile] at h
      rw [ih hkey.2 h, Keyed.get?_set, if_neg hkey.1]

/-- A file at fault among others for other tables adds its own result to theirs. -/
theorem loadFiles_faulty (l : Loader) (period : Time.Period) {before after : List String}
    (hread : Relation.read t (p.child name) = .error e) (he : e.isOfFile = true)
    (hbefore : File.Path.stem name ∉ before.map File.Path.stem)
    (hafter : File.Path.stem name ∉ after.map File.Path.stem) (c : Connection) :
    l.loadFiles t p period (before ++ after) [] c =
      (l.loadFiles t p period (before ++ name :: after) [] c).map
        (fun o => (Keyed.erase (File.Path.stem name) o.1, o.2)) ∧
    ∀ results c', l.loadFiles t p period (before ++ name :: after) [] c = .ok (results, c') →
      Keyed.get? (File.Path.stem name) results = some (unreadable (File.Path.stem name) e) := by
  have hfile (c : Connection) : l.fileResult t p period name c =
      .ok (unreadable (File.Path.stem name) e, c) := by
    rw [fileResult_of_error hread, if_pos he]
  rw [loadFiles_append, loadFiles_append]
  cases hfirst : l.loadFiles t p period before [] c with
  | error e' => exact ⟨rfl, nofun⟩
  | ok o =>
    have hnone : Keyed.get? (File.Path.stem name) o.1 = none := get?_loadFiles hbefore hfirst
    simp only [Except.bind]
    rw [loadFiles_cons, hfile]
    simp only [Except.bind]
    constructor
    · rw [← loadFiles_erase hafter, Keyed.erase_set_self,
        Keyed.erase_eq_self (Keyed.get?_eq_none_iff.1 hnone)]
    · intro results c' h
      rw [get?_loadFiles hafter h, Keyed.get?_set, if_pos rfl]

/-- A directory is loaded to its end unless a file has too much in it to keep track of. -/
theorem exists_loadFiles (l : Loader) (period : Time.Period) {names : List String}
    (h : ∀ name ∈ names, ∀ e, Relation.read t (p.child name) = .error e → e.isOfFile = true)
    (results : Keyed Result) (c : Connection) :
    ∃ o, l.loadFiles t p period names results c = .ok o := by
  induction names generalizing results c with
  | nil => exact ⟨_, rfl⟩
  | cons name rest ih =>
    have hrest := ih fun other ho => h other (List.mem_cons_of_mem _ ho)
    rw [loadFiles_cons]
    cases hread : Relation.read t (p.child name) with
    | error e =>
      rw [fileResult_of_error hread, if_pos (h name List.mem_cons_self e hread)]
      exact hrest _ _
    | ok records =>
      rw [fileResult_of_ok hread]
      exact hrest _ _

end Load.Loader

namespace Load

/-- A file at fault stands apart when its directory is loaded: it has a result with one error and nothing
attempted, and the requests and the other results are those of loading the other files. -/
structure Apart (l : Loader) (t : File.Tree) (p : File.Path) (period : Time.Period) (c : Connection)
    (name : String) (e : Relation.ReadError) : Prop where
  result : ∀ results c', l.loadDirectory t p period c = .ok (results, c') →
    ∃ r, Keyed.get? (File.Path.stem name) results = some r ∧ r.attempted = 0 ∧ r.succeeded = 0 ∧
      r.failed = 0 ∧ r.errors = [⟨0, 0, e.message⟩]
  others : l.loadFiles t p period ((Loader.relationFiles t p).filter (· ≠ name)) [] c =
    (l.loadDirectory t p period c).map fun o => (Keyed.erase (File.Path.stem name) o.1, o.2)

theorem apart_of_mem {l : Loader} {t : File.Tree} {p : File.Path} {period : Time.Period}
    {c : Connection} {name : String} {e : Relation.ReadError}
    (hdistinct : ((Loader.relationFiles t p).map File.Path.stem).Nodup)
    (hname : name ∈ Loader.relationFiles t p) (hread : Relation.read t (p.child name) = .error e)
    (he : e.isOfFile = true) : Apart l t p period c name e := by
  obtain ⟨before, after, hfiles⟩ := List.append_of_mem hname
  rw [hfiles, List.map_append, List.map_cons] at hdistinct
  have hnew : File.Path.stem name ∉ before.map File.Path.stem ++ after.map File.Path.stem :=
    (List.nodup_middle.1 hdistinct).notMem
  rw [List.mem_append, not_or] at hnew
  obtain ⟨hothers, hresult⟩ := l.loadFiles_faulty period hread he hnew.1 hnew.2 c
  have hkeep : ∀ names : List String, File.Path.stem name ∉ names.map File.Path.stem →
      names.filter (· ≠ name) = names := by
    intro names hno
    refine List.filter_eq_self.2 fun other hother => ?_
    rw [decide_eq_true_iff]
    rintro rfl
    exact hno (List.mem_map_of_mem hother)
  have hfilter : (Loader.relationFiles t p).filter (· ≠ name) = before ++ after := by
    rw [hfiles, List.filter_append, List.filter_cons_of_neg (by simp), hkeep _ hnew.1, hkeep _ hnew.2]
  constructor
  · intro results c' h
    rw [Loader.loadDirectory, hfiles] at h
    exact ⟨_, hresult results c' h, rfl, rfl, rfl, rfl⟩
  · rw [hfilter, hothers, Loader.loadDirectory, hfiles]

/-- The records of a table are cut into pieces that are sent in order, and its result tells which of them
were loaded. In a directory whose files are for different tables, a file at fault has a result of its own
and makes no difference to the others; the directory is loaded to its end unless a file has too much in it
to keep track of. -/
theorem load_tells (l : Loader) :
    (∀ table records period c, Told l table records c (l.loadTable table records period c).1
      (l.loadTable table records period c).2) ∧
    ∀ t p period c, ((Loader.relationFiles t p).map File.Path.stem).Nodup →
      (∀ name ∈ Loader.relationFiles t p, ∀ e, Relation.read t (p.child name) = .error e →
        e.isOfFile = true → Apart l t p period c name e) ∧
      ((∀ name ∈ Loader.relationFiles t p, ∀ e, Relation.read t (p.child name) = .error e →
        e.isOfFile = true) → ∃ results c', l.loadDirectory t p period c = .ok (results, c')) := by
  refine ⟨l.told_loadTable, fun t p period c hdistinct => ⟨fun name hname e hread he => ?_, fun h => ?_⟩⟩
  · exact apart_of_mem hdistinct hname hread he
  · obtain ⟨o, ho⟩ := l.exists_loadFiles period h [] c
    exact ⟨o.1, o.2, ho⟩

/-- A loader that sends two records with each request. -/
def pairLoader : Loader :=
  ⟨"http://db", .text "key", false, 2, true, .text "id", .int 60, by decide⟩

def loadPeriod : Time.Period := ⟨⟨⟨2024, 5, 1⟩, {}, some 0⟩, ⟨⟨2024, 5, 1⟩, {}, some 0⟩⟩

/-- A directory of two files, the first of which is cut off while the second one holds no records. -/
def cutOff (first second : String) : File.Tree :=
  .ofFiles [(⟨false, ["in", first]⟩, .file "\x7b".toUTF8), (⟨false, ["in", second]⟩, .file "[]".toUTF8)]

/-- The file of a name in the directory is at fault. -/
def isFaulty (t : File.Tree) (name : String) : Bool :=
  match Relation.read t (File.Path.child ⟨false, ["in"]⟩ name) with
  | .error e => e.isOfFile
  | .ok _ => false

theorem exists_of_isFaulty {t : File.Tree} {name : String} (h : isFaulty t name = true) :
    ∃ e, Relation.read t (File.Path.child ⟨false, ["in"]⟩ name) = .error e ∧ e.isOfFile = true := by
  unfold isFaulty at h
  split at h
  · rename_i e hread
    exact ⟨e, hread, h⟩
  · cases h

/-- The file of a name in the directory is read and holds no records. -/
def isEmptyFile (t : File.Tree) (name : String) : Bool :=
  match Relation.read t (File.Path.child ⟨false, ["in"]⟩ name) with
  | .ok [] => true
  | _ => false

theorem read_of_isEmptyFile {t : File.Tree} {name : String} (h : isEmptyFile t name = true) :
    Relation.read t (File.Path.child ⟨false, ["in"]⟩ name) = .ok [] := by
  unfold isEmptyFile at h
  split at h
  · rename_i hread
    exact hread
  · cases h

/-- Files that are in order are loaded in that order. -/
theorem relationFiles_eq {t : File.Tree} {p : File.Path} {names : List String}
    (hnames : (t.childNames p).filter
      (fun n => Loader.relationEnding.toList.isSuffixOf n.toList) = names)
    (horder : names.Pairwise fun a b => decide (a ≤ b) = true) : Loader.relationFiles t p = names := by
  rw [Loader.relationFiles, hnames]
  exact List.mergeSort_of_pairwise horder

theorem load_tells_cutOff : ∃ e,
    Relation.read (cutOff "bad.json" "users.json") (File.Path.child ⟨false, ["in"]⟩ "bad.json") =
        .error e ∧
      Apart pairLoader (cutOff "bad.json" "users.json") ⟨false, ["in"]⟩ loadPeriod ⟨[.created], []⟩
        "bad.json" e := by
  have hfiles : Loader.relationFiles (cutOff "bad.json" "users.json") ⟨false, ["in"]⟩ =
      ["bad.json", "users.json"] := relationFiles_eq (by decide) (by decide)
  have hstems : ((Loader.relationFiles (cutOff "bad.json" "users.json") ⟨false, ["in"]⟩).map
      File.Path.stem).Nodup := by
    rw [hfiles]
    decide
  have hname : "bad.json" ∈ Loader.relationFiles (cutOff "bad.json" "users.json") ⟨false, ["in"]⟩ := by
    rw [hfiles]
    exact List.mem_cons_self
  have hfaulty : isFaulty (cutOff "bad.json" "users.json") "bad.json" = true := by decide
  obtain ⟨e, hread, he⟩ := exists_of_isFaulty hfaulty
  exact ⟨e, hread, ((load_tells pairLoader).2 _ _ loadPeriod ⟨[.created], []⟩ hstems).1 _ hname e hread he⟩

/-- Of two files for one table the second one has the result, also where the first one is at fault. -/
theorem loadDirectory_of_same_table (l : Loader) {t : File.Tree} {p : File.Path} (period : Time.Period)
    {first second : String} {e : Relation.ReadError} {records : List Json}
    (hfiles : Loader.relationFiles t p = [first, second])
    (hfirst : Relation.read t (p.child first) = .error e) (he : e.isOfFile = true)
    (hsecond : Relation.read t (p.child second) = .ok records)
    (hsame : File.Path.stem first = File.Path.stem second) (c : Connection) :
    l.loadDirectory t p period c =
      let loaded := l.loadTable (File.Path.stem second) (records.map .ofJson) period c
      .ok ([(File.Path.stem second, loaded.1)], loaded.2) := by
  rw [Loader.loadDirectory, hfiles, Loader.loadFiles_cons, Loader.fileResult_of_error hfirst, if_pos he]
  simp only [Except.bind]
  rw [Loader.loadFiles_cons, Loader.fileResult_of_ok hsecond, hsame]
  exact congrArg (fun results => Except.ok (results, _)) (Keyed.set_cons_self ..)

/-- So the result for a table can be without an error although a file for it is at fault. -/
theorem loadDirectory_sameTable :
    isFaulty (cutOff ".json" ".json.json") ".json" = true ∧
      ∃ r c', pairLoader.loadDirectory (cutOff ".json" ".json.json") ⟨false, ["in"]⟩ loadPeriod
        ⟨[.created], []⟩ = .ok ([(".json", r)], c') ∧ r.errors = [] := by
  have hfiles : Loader.relationFiles (cutOff ".json" ".json.json") ⟨false, ["in"]⟩ =
      [".json", ".json.json"] := relationFiles_eq (by decide) (by decide)
  have hfaulty : isFaulty (cutOff ".json" ".json.json") ".json" = true := by decide
  have hempty : isEmptyFile (cutOff ".json" ".json.json") ".json.json" = true := by decide
  have hfirst : File.Path.stem ".json" = ".json" := by decide
  have hsecond : File.Path.stem ".json.json" = ".json" := by decide
  obtain ⟨e, hread, he⟩ := exists_of_isFaulty hfaulty
  have hloaded := loadDirectory_of_same_table pairLoader loadPeriod hfiles hread he
    (read_of_isEmptyFile hempty) (hfirst.trans hsecond.symm) ⟨[.created], []⟩
  rw [hsecond] at hloaded
  have htold := pairLoader.told_loadTable ".json" [] loadPeriod ⟨[.created], []⟩
  refine ⟨hfaulty, _, _, hloaded, ?_⟩
  rw [List.map_nil, htold.errors_eq, (chunks_eq_nil_iff pairLoader.batchSize_pos).2 rfl]
  rfl

end Load
end BackendMigration
