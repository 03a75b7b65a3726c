import BackendMigration.Inventory.Directory
import BackendMigration.Proofs.File.Listing
import BackendMigration.Proofs.File.Way

/-! The source files below a directory are those that a walk through its subdirectories meets, in the
order of the walk. -/
namespace BackendMigration.Inventory

open File (Node Path Tree)

variable {t : Tree} {p : Path} {name x y : String} {names a b c r s : List String}

/-! The order of a walk. -/

/-- Names of a directory itself go before longer ones, and longer ones go by their first names. -/
theorem walksBefore_cons_cons : walksBefore (x :: r) (y :: s) = true ↔
    (r = [] ∧ (s = [] → x ≤ y)) ∨
      (r ≠ [] ∧ s ≠ [] ∧ (x < y ∨ (x = y ∧ walksBefore r s = true))) := by
  by_cases hr : r = []
  · subst hr
    cases s with
    | nil => simp only [walksBefore, decide_eq_true_eq, ne_eq, not_true, false_and, or_false,
        true_and, true_implies]
    | cons z s => simp [walksBefore]
  · by_cases hs : s = []
    · subst hs
      cases r with
      | nil => exact absurd rfl hr
      | cons z r => simp [walksBefore]
    · rw [walksBefore, Bool.or_eq_true, Bool.and_eq_true, decide_eq_true_eq, beq_iff_eq]
      · simp only [hr, hs, false_and, false_or, ne_eq, not_false_eq_true, true_and]
      · exact fun h _ => hr h
      · exact hr
      · exact hs

theorem walksBefore_trans (a b c : List String) (hab : walksBefore a b = true)
    (hbc : walksBefore b c = true) : walksBefore a c = true := by
  induction a generalizing b c with
  | nil => exact walksBefore.eq_1 c
  | cons x r ih =>
    match b, c with
    | [], _ => cases hab
    | _ :: _, [] => cases hbc
    | y :: s, z :: u =>
      rw [walksBefore_cons_cons] at *
      rcases hab with ⟨hr, hxy⟩ | ⟨hr, hs, hxy⟩
      · refine .inl ⟨hr, fun hu => ?_⟩
        rcases hbc with ⟨hs, hyz⟩ | ⟨-, hu', -⟩
        · exact String.le_trans (hxy hs) (hyz hu)
        · exact absurd hu hu'
      · rcases hbc with ⟨hs', -⟩ | ⟨-, hu, hyz⟩
        · exact absurd hs' hs
        · refine .inr ⟨hr, hu, ?_⟩
          rcases hxy with hxy | ⟨rfl, hrs⟩
          · rcases hyz with hyz | ⟨rfl, -⟩
            · exact .inl (String.lt_trans hxy hyz)
            · exact .inl hxy
          · exact hyz.imp_right fun hyz => ⟨hyz.1, ih s u hrs hyz.2⟩

theorem walksBefore_total (a b : List String) :
    (walksBefore a b || walksBefore b a) = true := by
  rw [Bool.or_eq_true]
  induction a generalizing b with
  | nil => exact .inl (walksBefore.eq_1 b)
  | cons x r ih =>
    cases b with
    | nil => exact .inr rfl
    | cons y s =>
      rw [walksBefore_cons_cons, walksBefore_cons_cons]
      by_cases hr : r = []
      · by_cases hs : s = []
        · exact (String.le_total x y).imp (fun h => .inl ⟨hr, fun _ => h⟩) fun h =>
            .inl ⟨hs, fun _ => h⟩
        · exact .inl (.inl ⟨hr, fun h => absurd h hs⟩)
      · by_cases hs : s = []
        · exact .inr (.inl ⟨hs, fun h => absurd h hr⟩)
        · by_cases hxy : x < y
          · exact .inl (.inr ⟨hr, hs, .inl hxy⟩)
          · by_cases hyx : y < x
            · exact .inr (.inr ⟨hs, hr, .inl hyx⟩)
            · have heq : x = y := String.le_antisymm (String.not_lt.1 hyx) (String.not_lt.1 hxy)
              exact (ih s).imp (fun h => .inr ⟨hr, hs, .inr ⟨heq, h⟩⟩) fun h =>
                .inr ⟨hs, hr, .inr ⟨heq.symm, h⟩⟩

theorem walksBefore_antisymm (hab : walksBefore a b = true) (hba : walksBefore b a = true) :
    a = b := by
  induction a generalizing b with
  | nil =>
    cases b with
    | nil => rfl
    | cons y s => cases hba
  | cons x r ih =>
    cases b with
    | nil => cases hab
    | cons y s =>
      rw [walksBefore_cons_cons] at hab hba
      rcases hab with ⟨hr, hxy⟩ | ⟨hr, hs, hxy⟩
      · rcases hba with ⟨hs, hyx⟩ | ⟨-, hr', -⟩
        · rw [hr, hs, String.le_antisymm (hxy hs) (hyx hr)]
        · exact absurd hr hr'
      · rcases hba with ⟨hs', -⟩ | ⟨-, -, hyx⟩
        · exact absurd hs' hs
        · rcases hxy with hxy | ⟨rfl, hrs⟩
          · rcases hyx with hyx | ⟨rfl, -⟩
            · exact absurd (String.lt_trans hxy hyx) (String.lt_irrefl x)
            · exact absurd hxy (String.lt_irrefl y)
          · rcases hyx with hxx | ⟨-, hsr⟩
            · exact absurd hxx (String.lt_irrefl x)
            · rw [ih hrs hsr]

/-! The walk. -/

/-- The names of one kind in a directory, in order. -/
def namesIn (t : Tree) (p : Path) (kind : String → Bool) : List String :=
  ((t.namesAt p).filter kind).mergeSort fun a b => a ≤ b

theorem mem_namesIn {kind : String → Bool} :
    name ∈ namesIn t p kind ↔ t.node? (p.child name) ≠ none ∧ kind name = true := by
  rw [namesIn, List.mem_mergeSort, List.mem_filter, Tree.mem_namesAt]

theorem pairwise_namesIn (h : t.Distinct) (p : Path) (kind : String → Bool) :
    (namesIn t p kind).Pairwise fun a b => a < b := by
  have hsorted : (namesIn t p kind).Pairwise fun a b => decide (a ≤ b) = true := by
    refine List.pairwise_mergeSort (fun a b c hab hbc => ?_) (fun a b => ?_) _
    · simp only [decide_eq_true_eq] at *
      exact String.le_trans hab hbc
    · simpa using String.le_total a b
  have hdistinct : (namesIn t p kind).Nodup :=
    (List.mergeSort_perm _ _).nodup_iff.2 ((h.nodup_namesAt p).filter _)
  refine (hsorted.and hdistinct).imp ?_
  rintro a b ⟨hle, hne⟩
  have hle : a ≤ b := of_decide_eq_true hle
  exact String.not_le.1 fun hba => hne (String.le_antisymm hle hba)

def isFileNode : Option Node → Bool
  | some (.file _) => true
  | _ => false

/-- The source files of a directory itself. -/
def sourceNames (t : Tree) (p : Path) : List String :=
  namesIn t p fun name => isSourceFile name && isFileNode (t.node? (p.child name))

/-- The subdirectories that a walk goes into. -/
def enteredNames (t : Tree) (p : Path) : List String :=
  namesIn t p fun name =>
    !skippedDirectories.contains name && t.node? (p.child name) == some .directory

theorem mem_sourceNames : name ∈ sourceNames t p ↔
    isSourceFile name = true ∧ ∃ bytes, t.node? (p.child name) = some (.file bytes) := by
  rw [sourceNames, mem_namesIn, Bool.and_eq_true]
  cases t.node? (p.child name) with
  | none => simp [isFileNode]
  | some node => cases node <;> simp [isFileNode]

theorem mem_enteredNames : name ∈ enteredNames t p ↔
    name ∉ skippedDirectories ∧ t.node? (p.child name) = some .directory := by
  rw [enteredNames, mem_namesIn, Bool.and_eq_true, beq_iff_eq]
  constructor
  · rintro ⟨-, hskip, hnode⟩
    exact ⟨by simpa using hskip, hnode⟩
  · rintro ⟨hskip, hnode⟩
    exact ⟨by simp [hnode], by simpa using hskip, hnode⟩

/-- The most names that lead to anything. -/
def depth (t : Tree) : Nat := (t.entries.map (·.1.names.length)).max?.getD 0

theorem length_le_depth {n : Node} (h : t.node? p = some n) : p.names.length ≤ depth t := by
  by_cases hne : p.names = []
  · simp [hne]
  · exact List.le_max?_getD_of_mem (List.mem_map.2 ⟨_, Tree.exists_mem_of_node? h hne, rfl⟩)

/-- The names that lead to the source files below a directory: those of the directory itself come
first, then those of each subdirectory that is not skipped. -/
def walk (t : Tree) (p : Path) : List (List String) :=
  (sourceNames t p).map ([·]) ++
    (enteredNames t p).attach.flatMap fun ⟨name, _⟩ => (walk t (p.child name)).map (name :: ·)
termination_by depth t - p.names.length
decreasing_by
  rename_i hentered
  have hdepth := length_le_depth (mem_enteredNames.1 hentered).2
  simp only [Path.child, List.length_append, List.length_singleton] at *
  omega

theorem walk_eq (t : Tree) (p : Path) : walk t p =
    (sourceNames t p).map ([·]) ++
      (enteredNames t p).flatMap fun name => (walk t (p.child name)).map (name :: ·) := by
  rw [walk]
  congr 1
  conv_rhs => rw [← List.attach_map_subtype_val (enteredNames t p), List.flatMap_map]

theorem isSourcePath_singleton : isSourcePath [name] = isSourceFile name := by
  simp [isSourcePath]

theorem isSourcePath_cons (h : r ≠ []) : isSourcePath (name :: r) = true ↔
    name ∉ skippedDirectories ∧ isSourcePath r = true := by
  cases r with
  | nil => exact absurd rfl h
  | cons next rest =>
    simp only [isSourcePath, List.getLast?_cons_cons, List.dropLast_cons_cons, List.all_cons,
      Bool.and_eq_true, Bool.not_eq_true', List.contains_eq_mem, decide_eq_false_iff_not]
    tauto

theorem ne_nil_of_mem_walk (h : names ∈ walk t p) : names ≠ [] := by
  rw [walk_eq, List.mem_append, List.mem_map, List.mem_flatMap] at h
  rcases h with ⟨name, -, rfl⟩ | ⟨name, -, h⟩
  · simp
  · obtain ⟨rest, -, rfl⟩ := List.mem_map.1 h
    simp

theorem singleton_mem_walk : [name] ∈ walk t p ↔ name ∈ sourceNames t p := by
  rw [walk_eq, List.mem_append, List.mem_flatMap]
  constructor
  · rintro (h | ⟨entered, -, h⟩)
    · simpa using h
    · obtain ⟨rest, hrest, heq⟩ := List.mem_map.1 h
      exact absurd (List.cons.inj heq).2 (ne_nil_of_mem_walk hrest)
  · exact fun h => .inl (List.mem_map.2 ⟨name, h, rfl⟩)

theorem cons_mem_walk (hr : r ≠ []) :
    name :: r ∈ walk t p ↔ name ∈ enteredNames t p ∧ r ∈ walk t (p.child name) := by
  rw [walk_eq, List.mem_append, List.mem_flatMap]
  constructor
  · rintro (h | ⟨entered, hentered, h⟩)
    · obtain ⟨source, -, heq⟩ := List.mem_map.1 h
      exact absurd (List.cons.inj heq).2.symm hr
    · obtain ⟨rest, hrest, heq⟩ := List.mem_map.1 h
      obtain ⟨rfl, rfl⟩ := List.cons.inj heq
      exact ⟨hentered, hrest⟩
  · rintro ⟨hentered, hrest⟩
    exact .inr ⟨name, hentered, List.mem_map.2 ⟨r, hrest, rfl⟩⟩

/-- A walk meets the source files to which no skipped directory leads. -/
theorem mem_walk (closed : t.Closed) : names ∈ walk t p ↔
    isSourcePath names = true ∧ ∃ bytes, t.node? (p.below names) = some (.file bytes) := by
  induction names generalizing p with
  | nil =>
    refine iff_of_false (fun h => ne_nil_of_mem_walk h rfl) ?_
    rintro ⟨h, -⟩
    cases h
  | cons name rest ih =>
    by_cases hrest : rest = []
    · subst hrest
      rw [singleton_mem_walk, mem_sourceNames, isSourcePath_singleton, Path.below_singleton]
    · have hbelow : p.below (name :: rest) = (p.child name).below rest := by
        simp [Path.below, Path.child]
      rw [cons_mem_walk hrest, ih, mem_enteredNames, isSourcePath_cons hrest, hbelow]
      constructor
      · rintro ⟨⟨hskip, -⟩, hsource, hfile⟩
        exact ⟨⟨hskip, hsource⟩, hfile⟩
      · rintro ⟨⟨hskip, hsource⟩, bytes, hfile⟩
        have hentered : t.node? (p.child name) = some .directory := by
          by_contra hne
          rw [closed.node?_below hne hrest] at hfile
          cases hfile
        exact ⟨⟨hskip, hentered⟩, hsource, bytes, hfile⟩

/-- A walk goes forward. -/
theorem pairwise_walk (distinct : t.Distinct) (p : Path) :
    (walk t p).Pairwise fun a b => walksBefore a b = true ∧ a ≠ b := by
  induction p using walk.induct t with
  | case1 p ih =>
    rw [walk_eq, List.pairwise_append]
    refine ⟨?_, List.pairwise_flatMap.2 ⟨fun name hname => ?_, ?_⟩, ?_⟩
    · refine List.pairwise_map.2 ((pairwise_namesIn distinct p _).imp fun {a b} hlt => ⟨?_, ?_⟩)
      · exact walksBefore_cons_cons.2 (.inl ⟨rfl, fun _ => String.not_lt.1 (String.lt_asymm hlt)⟩)
      · intro heq
        rw [(List.cons.inj heq).1] at hlt
        exact String.lt_irrefl b hlt
    · refine List.pairwise_map.2 ((ih name hname).imp_of_mem fun {a b} ha hb h => ⟨?_, ?_⟩)
      · exact walksBefore_cons_cons.2
          (.inr ⟨ne_nil_of_mem_walk ha, ne_nil_of_mem_walk hb, .inr ⟨rfl, h.1⟩⟩)
      · exact fun heq => h.2 (List.cons.inj heq).2
    · refine (pairwise_namesIn distinct p _).imp fun {a b} hlt xs hxs ys hys => ?_
      obtain ⟨r, hr, rfl⟩ := List.mem_map.1 hxs
      obtain ⟨s, hs, rfl⟩ := List.mem_map.1 hys
      refine ⟨walksBefore_cons_cons.2
        (.inr ⟨ne_nil_of_mem_walk hr, ne_nil_of_mem_walk hs, .inl hlt⟩), fun heq => ?_⟩
      rw [(List.cons.inj heq).1] at hlt
      exact String.lt_irrefl b hlt
    · intro xs hxs ys hys
      obtain ⟨source, -, rfl⟩ := List.mem_map.1 hxs
      obtain ⟨entered, -, hys⟩ := List.mem_flatMap.1 hys
      obtain ⟨s, hs, rfl⟩ := List.mem_map.1 hys
      have hne := ne_nil_of_mem_walk hs
      exact ⟨walksBefore_cons_cons.2 (.inl ⟨rfl, fun h => absurd h hne⟩), fun heq =>
        hne (List.cons.inj heq).2.symm⟩

/-! The source files are those of the walk. -/

/-- The names that lead from a directory to a file. -/
def leads? (top : Path) (e : Path × Node) : Option (List String) :=
  if isFileNode (some e.2) && e.1.within top then some (e.1.names.drop top.names.length) else none

theorem leads?_eq_some_iff {top : Path} {e : Path × Node} : leads? top e = some names ↔
    isFileNode (some e.2) = true ∧ e.1 = top.below names := by
  unfold leads?
  constructor
  · intro h
    split at h
    · rename_i hfile
      obtain ⟨hfile, hwithin⟩ := Bool.and_eq_true_iff.1 hfile
      obtain ⟨rest, hpath⟩ := Path.within_iff.1 hwithin
      have hrest : rest = names := by simpa [hpath, Path.below] using h
      exact ⟨hfile, hrest ▸ hpath⟩
    · cases h
  · rintro ⟨hfile, hpath⟩
    rw [hfile, hpath, Path.within_below, Bool.and_self, if_pos rfl]
    simp [Path.below]

theorem filesBelow_eq {root top : Path} (hroot : t.resolve root = .ok top) :
    filesBelow t root = t.entries.filterMap (leads? top) := by
  rw [filesBelow, hroot]
  refine List.filterMap_congr fun e _ => ?_
  obtain ⟨path, node⟩ := e
  cases node <;> simp [leads?, isFileNode]

theorem mem_filesBelow (distinct : t.Distinct) {root top : Path} (hroot : t.resolve root = .ok top)
    (hn : names ≠ []) :
    names ∈ filesBelow t root ↔ ∃ bytes, t.node? (top.below names) = some (.file bytes) := by
  have hne : (top.below names).names ≠ [] := by simp [Path.below, hn]
  rw [filesBelow_eq hroot, List.mem_filterMap]
  constructor
  · rintro ⟨⟨path, node⟩, he, hleads⟩
    obtain ⟨hfile, rfl⟩ := leads?_eq_some_iff.1 hleads
    have hnode := distinct.node?_of_mem he hne
    cases node with
    | directory => cases hfile
    | file bytes => exact ⟨bytes, hnode⟩
  · rintro ⟨bytes, hfile⟩
    exact ⟨_, Tree.exists_mem_of_node? hfile hne, leads?_eq_some_iff.2 ⟨rfl, rfl⟩⟩

theorem nodup_filesBelow (distinct : t.Distinct) {root top : Path}
    (hroot : t.resolve root = .ok top) : (filesBelow t root).Nodup := by
  rw [filesBelow_eq hroot]
  refine List.Pairwise.filterMap _ (fun a b hab xs hxs ys hys heq => hab ?_)
    (List.pairwise_map.1 distinct)
  rw [(leads?_eq_some_iff.1 hxs).2, (leads?_eq_some_iff.1 hys).2, heq]

/-- Sorting what is below a directory gives the walk through it. -/
theorem mergeSort_filesBelow (closed : t.Closed) (distinct : t.Distinct) {root top : Path}
    (hroot : t.resolve root = .ok top) :
    ((filesBelow t root).filter isSourcePath).mergeSort walksBefore = walk t top := by
  have hwalk := pairwise_walk distinct top
  have hsorted := List.pairwise_mergeSort walksBefore_trans walksBefore_total
    ((filesBelow t root).filter isSourcePath)
  have hmem (names : List String) :
      names ∈ (filesBelow t root).filter isSourcePath ↔ names ∈ walk t top := by
    rw [mem_walk closed, List.mem_filter, and_comm]
    refine and_congr_right fun hsource => mem_filesBelow distinct hroot ?_
    rintro rfl
    cases hsource
  have hperm : ((filesBelow t root).filter isSourcePath).Perm (walk t top) := by
    rw [List.perm_ext_iff_of_nodup ((nodup_filesBelow distinct hroot).filter _)
      (hwalk.imp And.right)]
    exact hmem
  apply List.Perm.eq_of_pairwise _ hsorted (hwalk.imp And.left)
    ((List.mergeSort_perm _ _).trans hperm)
  exact fun a b _ _ => walksBefore_antisymm

/-- The paths of the source files of a directory in the order of the walk; none if it is no
directory. -/
def walkedFiles (t : Tree) (directory : String) : List Path :=
  if t.isDirectory (.literal directory) then
    (walk t (Path.ofText directory).goal).map fun names => (Path.ofText directory).join ⟨false, names⟩
  else []

theorem sourceFiles_eq_walkedFiles (closed : t.Closed) (distinct : t.Distinct)
    (directory : String) : sourceFiles t directory = walkedFiles t directory := by
  unfold sourceFiles walkedFiles
  dsimp only
  split
  · rename_i hdirectory
    obtain ⟨top, htop, -⟩ := Tree.isDirectory_iff.1 (Tree.isDirectory_ofText hdirectory)
    rw [mergeSort_filesBelow closed distinct htop, Tree.goal_of_resolve htop]
  · rfl

theorem join_names_inj (root : Path) (h : root.join ⟨false, a⟩ = root.join ⟨false, b⟩) :
    a = b := by
  simpa [Path.join] using h

theorem nodup_walkedFiles (distinct : t.Distinct) (directory : String) :
    (walkedFiles t directory).Nodup := by
  unfold walkedFiles
  split
  · exact List.pairwise_map.2 ((pairwise_walk distinct _).imp fun h heq =>
      h.2 (join_names_inj _ heq))
  · exact List.nodup_nil

theorem mem_walkedFiles (closed : t.Closed) {directory : String} {path : Path} :
    path ∈ walkedFiles t directory ↔ t.isDirectory (.literal directory) = true ∧
      ∃ names, path = (Path.ofText directory).join ⟨false, names⟩ ∧
        (∃ bytes, t.node? ((Path.ofText directory).goal.below names) = some (.file bytes)) ∧
        names.getLast?.any isSourceFile = true ∧ ∀ name ∈ names.dropLast, name ∉ skippedDirectories := by
  unfold walkedFiles
  split
  · rename_i hdirectory
    simp only [hdirectory, true_and, List.mem_map, mem_walk closed, isSourcePath, Bool.and_eq_true,
      List.all_eq_true, Bool.not_eq_true', List.contains_eq_mem, decide_eq_false_iff_not]
    constructor
    · rintro ⟨names, ⟨hsource, hfile⟩, rfl⟩
      exact ⟨names, rfl, hfile, hsource⟩
    · rintro ⟨names, rfl, hfile, hsource⟩
      exact ⟨names, ⟨hsource, hfile⟩, rfl⟩
  · rename_i hdirectory
    simp [hdirectory]

end BackendMigration.Inventory
