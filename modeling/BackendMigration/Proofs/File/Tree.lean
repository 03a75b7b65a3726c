import BackendMigration.File.Tree

/-! What file operations leave as it was. -/
namespace BackendMigration.File.Tree

variable {t t' base : Tree} {p q : Path} {n : Node}

/-- Every directory of one tree is a directory of the other. -/
def KeepsDirectories (base t : Tree) : Prop :=
  ∀ p, base.node? p = some .directory → t.node? p = some .directory

theorem KeepsDirectories.refl (t : Tree) : KeepsDirectories t t := fun _ h => h

theorem names_ne_nil_of_node? (h : t.node? q ≠ some .directory) : q.names ≠ [] := by
  intro hn
  simp [node?, hn] at h

theorem node?_setNode_self (h : t.node? q ≠ some .directory) :
    (t.setNode q n).node? q = some n := by
  rw [node?_setNode (names_ne_nil_of_node? h), if_pos rfl]

theorem node?_setNode_of_ne (h : p ≠ q) : (t.setNode q n).node? p = t.node? p := by
  by_cases hp : p.names = []
  · simp [node?, hp]
  · rw [node?_setNode hp, if_neg h]

/-- A node put where no directory stands leaves all directories. -/
theorem keepsDirectories_setNode (h : t.node? q ≠ some .directory) :
    KeepsDirectories t (t.setNode q n) := by
  intro p hp
  have hne : p ≠ q := by
    rintro rfl
    exact h hp
  rw [node?_setNode_of_ne hne, hp]

/-- Names lead only through directories. -/
theorem resolveFrom_of_keeps (hk : KeepsDirectories base t) {names : List String}
    (h : base.resolveFrom p names = .ok q) : t.resolveFrom p names = .ok q := by
  induction names generalizing p with
  | nil => exact h
  | cons name rest ih =>
    simp only [resolveFrom] at h ⊢
    split at h
    · cases h
    · cases h
    · rename_i hd
      rw [hk p hd]
      dsimp only
      split at h
      · cases h
      · rename_i hl
        rw [if_neg hl]
        exact ih h

theorem resolve_of_keeps (hk : KeepsDirectories base t) (h : base.resolve p = .ok q) :
    t.resolve p = .ok q := by
  unfold resolve at h ⊢
  split at h
  · cases h
  · exact resolveFrom_of_keeps hk h

/-- The last name of a path is followed from a directory. -/
theorem exists_of_resolveFrom_concat {names : List String} {last : String}
    (h : t.resolveFrom p (names ++ [last]) = .ok q) :
    ∃ d, t.resolveFrom p names = .ok d ∧ t.node? d = some .directory ∧ q = d.follow last := by
  induction names generalizing p with
  | nil =>
    simp only [List.nil_append, resolveFrom] at h
    split at h
    · cases h
    · cases h
    · rename_i hd
      split at h
      · cases h
      · exact ⟨p, rfl, hd, (Except.ok.inj h).symm⟩
  | cons name rest ih =>
    simp only [List.cons_append, resolveFrom] at h ⊢
    split at h
    · cases h
    · cases h
    · split at h
      · cases h
      · rename_i hl
        rw [if_neg hl]
        exact ih h

theorem isDirectory_iff :
    t.isDirectory p = true ↔ ∃ q, t.resolve p = .ok q ∧ t.node? q = some .directory := by
  unfold isDirectory lookup?
  cases t.resolve p with
  | error cause => simp
  | ok q => simp

theorem isDirectory_of_keeps (hk : KeepsDirectories base t) (h : base.isDirectory p = true) :
    t.isDirectory p = true := by
  obtain ⟨q, hq, hd⟩ := isDirectory_iff.1 h
  exact isDirectory_iff.2 ⟨q, resolve_of_keeps hk hq, hk q hd⟩

/-! Directories. -/

theorem isDirectory_of_makeDirectory (h : t.makeDirectory p = .ok t') : t'.isDirectory p = true := by
  unfold makeDirectory reach at h
  cases hq : t.resolve p with
  | error cause => simp [hq, faultAt, bind, Except.bind] at h
  | ok q =>
    simp only [hq, bind, Except.bind] at h
    split at h
    · cases h
    · rename_i hn
      cases h
      have hne : t.node? q ≠ some .directory := by simp [hn]
      exact isDirectory_iff.2
        ⟨q, resolve_of_keeps (keepsDirectories_setNode hne) hq, node?_setNode_self hne⟩

theorem isDirectory_nil (t : Tree) (absolute : Bool) : t.isDirectory ⟨absolute, []⟩ = true := by
  refine isDirectory_iff.2 ⟨⟨absolute, []⟩, ?_, by simp [node?]⟩
  have : pathCause? (Path.text ⟨absolute, []⟩) = none := by cases absolute <;> decide
  simp [resolve, this, resolveFrom]

theorem isDirectory_of_makeDirectoriesFrom {absolute : Bool} {names : List String}
    (h : t.makeDirectoriesFrom absolute names = .ok t') :
    t'.isDirectory ⟨absolute, names.reverse⟩ = true := by
  induction names generalizing t' with
  | nil => exact isDirectory_nil t' absolute
  | cons name rest ih =>
    unfold makeDirectoriesFrom at h
    dsimp only at h
    split at h
    · rename_i made hm
      cases h
      exact isDirectory_of_makeDirectory hm
    · cases hr : t.makeDirectoriesFrom absolute rest with
      | error f => simp [hr, bind, Except.bind] at h
      | ok above =>
        simp only [hr, bind, Except.bind] at h
        split at h
        · rename_i made hm
          cases h
          exact isDirectory_of_makeDirectory hm
        · split at h
          · rename_i hd
            cases h
            exact hd
          · cases h
    · split at h
      · rename_i hd
        cases h
        exact hd
      · cases h

/-- After the directories are made the path is a directory. -/
theorem isDirectory_of_makeDirectories (h : t.makeDirectories p = .ok t') :
    t'.isDirectory p = true := by
  simpa using isDirectory_of_makeDirectoriesFrom h

/-- A directory that is there need not be made. -/
theorem makeDirectories_of_isDirectory (h : t.isDirectory p = true) :
    t.makeDirectories p = .ok t := by
  obtain ⟨absolute, names⟩ := p
  obtain ⟨q, hq, hd⟩ := isDirectory_iff.1 h
  unfold makeDirectories
  cases hr : names.reverse with
  | nil => rfl
  | cons name rest =>
    have hn : (name :: rest).reverse = names := by rw [← hr, List.reverse_reverse]
    have hm : t.makeDirectory ⟨absolute, names⟩ =
        .error ⟨.exists, (⟨absolute, names⟩ : Path).text⟩ := by
      unfold makeDirectory reach
      simp [hq, hd, faultAt, bind, Except.bind]
    unfold makeDirectoriesFrom
    simp [hn, hm, h]

/-! Files. -/

/-- A path at which a file can be written, and where it leads. -/
structure Receives (t : Tree) (p q : Path) : Prop where
  resolve_eq : t.resolve p = .ok q
  not_directory : t.node? q ≠ some .directory
  parent_directory : t.node? q.parent = some .directory

theorem Receives.write (h : t.Receives p q) (bytes : ByteArray) :
    t.write p bytes = .ok (t.setNode q (.file bytes)) := by
  unfold Tree.write reach
  simp only [h.resolve_eq, bind, Except.bind, h.parent_directory]
  split
  · rename_i hd
    exact absurd hd h.not_directory
  · rfl

theorem receives_of_write {bytes : ByteArray} (h : t.write p bytes = .ok t') :
    ∃ q, t.Receives p q := by
  unfold Tree.write reach at h
  cases hq : t.resolve p with
  | error cause => simp [hq, faultAt, bind, Except.bind] at h
  | ok q =>
    simp only [hq, bind, Except.bind] at h
    split at h
    · cases h
    · rename_i hn
      split at h
      · rename_i hp
        exact ⟨q, hq, hn, hp⟩
      · cases h
      · cases h

theorem Receives.of_keeps (h : base.Receives p q) (hk : KeepsDirectories base t)
    (hn : t.node? q ≠ some .directory) : t.Receives p q :=
  ⟨resolve_of_keeps hk h.resolve_eq, hn, hk _ h.parent_directory⟩

theorem isFile_iff :
    t.isFile p = true ↔ ∃ q bytes, t.resolve p = .ok q ∧ t.node? q = some (.file bytes) := by
  unfold isFile lookup?
  cases t.resolve p with
  | error cause => simp
  | ok q =>
    cases hq : t.node? q with
    | none => simp [hq]
    | some node => cases node <;> simp [hq]

theorem isFile_of_read {bytes : ByteArray} (h : t.read p = .ok bytes) : t.isFile p = true := by
  unfold Tree.read reach at h
  cases hq : t.resolve p with
  | error cause => simp [hq, faultAt, bind, Except.bind] at h
  | ok q =>
    simp only [hq, bind, Except.bind] at h
    split at h
    · rename_i bytes' hn
      exact isFile_iff.2 ⟨q, bytes', hq, hn⟩
    · cases h
    · cases h

theorem read_of_node? {bytes : ByteArray} (h : t.resolve p = .ok q)
    (hn : t.node? q = some (.file bytes)) : t.read p = .ok bytes := by
  simp [read, reach, h, hn, bind, Except.bind]

/-- Bytes are added after those of a file. -/
theorem Receives.append {before : ByteArray} (h : t.Receives p q)
    (hn : t.node? q = some (.file before)) (bytes : ByteArray) :
    t.append p bytes = .ok (t.setNode q (.file (before ++ bytes))) := by
  unfold Tree.append
  rw [read_of_node? h.resolve_eq hn]
  exact h.write _

end BackendMigration.File.Tree
