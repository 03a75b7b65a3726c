import BackendMigration.Migration.Output
import BackendMigration.Proofs.File.Closed
import BackendMigration.Proofs.File.Filled

/-! Writing one function: its directory is complete or as it was, and nothing else changes. -/
namespace BackendMigration.Migration

open File File.Tree

variable {write : GeneratedUnit → Except String String} {t t' : Tree} {p out : Path}
  {u : GeneratedUnit}

/-- The script that a function comes with. -/
def triggerOf (u : GeneratedUnit) : Option String := u.companionSql.filter fun s => !s.isEmpty

/-- At a path is the directory of a function, with its files and nothing else. -/
structure Written (write : GeneratedUnit → Except String String) (t : Tree) (p : Path)
    (u : GeneratedUnit) : Prop where
  directory : t.node? p = some .directory
  code : t.node? (p.child codeName) = some (.ofText u.code.toList)
  manifest : ∃ text, write u = .ok text ∧
    t.node? (p.child manifestName) = some (.ofText text.toList)
  trigger : t.node? (p.child triggerName) = (triggerOf u).map fun sql => .ofText sql.toList
  only : ∀ names, t.node? (p.below names) ≠ none →
    names = [] ∨ names = [codeName] ∨ names = [manifestName] ∨ names = [triggerName]

/-- The directory of a function is what stands at it and below. -/
theorem Written.of_below (h : Written write t p u) {q : Path}
    (hsame : ∀ names, t'.node? (q.below names) = t.node? (p.below names)) : Written write t' q u := by
  have hchild (name : String) : t'.node? (q.child name) = t.node? (p.child name) := hsame [name]
  obtain ⟨text, htext, hmanifest⟩ := h.manifest
  constructor
  · rw [← q.below_nil, hsame, p.below_nil, h.directory]
  · rw [hchild, h.code]
  · exact ⟨text, htext, by rw [hchild, hmanifest]⟩
  · rw [hchild, h.trigger]
  · intro names hne
    exact h.only names (hsame names ▸ hne)

theorem isName_codeName : Path.IsName codeName :=
  ⟨by decide, by decide, by decide, by decide⟩

theorem isName_manifestName : Path.IsName manifestName :=
  ⟨by decide, by decide, by decide, by decide⟩

theorem isName_triggerName : Path.IsName triggerName :=
  ⟨by decide, by decide, by decide, by decide⟩

/-- A text that is written is all that changes. -/
theorem eq_setNode_of_writeText {text : Text} (h : t.writeText p text = (.ok (), t')) :
    t.node? p.goal ≠ some .directory ∧ t' = t.setNode p.goal (.ofText text) := by
  by_cases hreceives : ∃ q, t.Receives p q
  · obtain ⟨q, hq⟩ := hreceives
    obtain rfl := goal_of_resolve hq.resolve_eq
    refine ⟨hq.not_directory, ?_⟩
    by_cases hn : text.NoHalves
    · rw [writeText_of_receives hq hn] at h
      exact (Prod.mk.inj h).2.symm
    · obtain ⟨f, hf⟩ := writeText_of_halves hq hn
      rw [hf] at h
      cases (Prod.mk.inj h).1
  · obtain ⟨f, hf⟩ := writeText_of_not_receives (fun q hq => hreceives ⟨q, hq⟩) text
    rw [hf] at h
    cases (Prod.mk.inj h).1

theorem writeText_of_putFile {name text : String} (h : putFile t p name text = .ok t') :
    t.writeText (p.child name) text.toList = (.ok (), t') := by
  unfold putFile at h
  split at h
  · rename_i t'' hw
    rw [hw, Except.ok.inj h]
  · cases h

theorem exists_of_fillUnit (h : fillUnit write t p u = .ok t') :
    ∃ manifest t₁ t₂, write u = .ok manifest ∧
      t.writeText (p.child codeName) u.code.toList = (.ok (), t₁) ∧
      t₁.writeText (p.child manifestName) manifest.toList = (.ok (), t₂) ∧
      match triggerOf u with
      | some sql => t₂.writeText (p.child triggerName) sql.toList = (.ok (), t')
      | none => t' = t₂ := by
  unfold fillUnit at h
  simp only [bind, Except.bind, pure, Except.pure] at h
  split at h
  · cases h
  · rename_i t₁ h₁
    split at h
    · cases h
    · rename_i manifest hmanifest
      split at h
      · cases h
      · rename_i t₂ h₂
        refine ⟨manifest, t₁, t₂, hmanifest, writeText_of_putFile h₁, writeText_of_putFile h₂, ?_⟩
        have htrigger : (u.companionSql.filter fun s => !s.isEmpty) = triggerOf u := rfl
        rw [htrigger] at h
        cases hsql : triggerOf u with
        | some sql =>
          rw [hsql] at h
          exact writeText_of_putFile h
        | none =>
          rw [hsql] at h
          exact (Except.ok.inj h).symm

/-- A file that is written in a directory is all that changes. -/
theorem node?_of_writeText {name : String} {text : Text} (hn : Path.IsName name)
    (h : t.writeText (p.child name) text = (.ok (), t')) :
    (∀ names, t'.node? (p.goal.below names) =
      if names = [name] then some (.ofText text) else t.node? (p.goal.below names)) ∧
    KeepsDirectories t t' ∧ ∀ r, r.within p.goal = false → t'.node? r = t.node? r := by
  have hgoal : (p.child name).goal = p.goal.below [name] := by
    rw [Path.goal_child, Path.follow_of_isName hn, Path.below_singleton]
  obtain ⟨hd, rfl⟩ := eq_setNode_of_writeText h
  rw [hgoal] at hd ⊢
  refine ⟨fun names => ?_, keepsDirectories_setNode hd, fun r hr => ?_⟩
  · by_cases he : names = [name]
    · rw [he, if_pos rfl, node?_setNode_self hd]
    · rw [if_neg he, node?_setNode_of_ne fun e => he (Path.below_inj e)]
  · refine node?_setNode_of_ne ?_
    rintro rfl
    rw [Path.within_below] at hr
    cases hr

/-- Filling an empty directory writes a function to it and changes nothing else. -/
theorem written_of_fillUnit (h : fillUnit write t p u = .ok t')
    (hdirectory : t.node? p.goal = some .directory)
    (hempty : ∀ names, names ≠ [] → t.node? (p.goal.below names) = none) :
    Written write t' p.goal u ∧ KeepsDirectories t t' ∧
      ∀ r, r.within p.goal = false → t'.node? r = t.node? r := by
  obtain ⟨manifest, t₁, t₂, hmanifest, h₁, h₂, h₃⟩ := exists_of_fillUnit h
  obtain ⟨hb₁, hk₁, ho₁⟩ := node?_of_writeText isName_codeName h₁
  obtain ⟨hb₂, hk₂, ho₂⟩ := node?_of_writeText isName_manifestName h₂
  obtain ⟨hb₃, hk₃, ho₃⟩ : (∀ names, t'.node? (p.goal.below names) =
      if names = [triggerName] then (triggerOf u).map fun sql => .ofText sql.toList
      else t₂.node? (p.goal.below names)) ∧
      KeepsDirectories t₂ t' ∧ ∀ r, r.within p.goal = false → t'.node? r = t₂.node? r := by
    cases hsql : triggerOf u with
    | some sql =>
      rw [hsql] at h₃
      exact node?_of_writeText isName_triggerName h₃
    | none =>
      rw [hsql] at h₃
      subst h₃
      refine ⟨fun names => ?_, .refl _, fun r _ => rfl⟩
      split
      · rename_i he
        subst he
        rw [hb₂, if_neg (by decide), hb₁, if_neg (by decide), hempty _ (List.cons_ne_nil _ _)]
        rfl
      · rfl
  have hbelow (names : List String) : t'.node? (p.goal.below names) =
      if names = [triggerName] then (triggerOf u).map fun sql => .ofText sql.toList
      else if names = [manifestName] then some (.ofText manifest.toList)
      else if names = [codeName] then some (.ofText u.code.toList)
      else t.node? (p.goal.below names) := by
    rw [hb₃, hb₂, hb₁]
  refine ⟨?_, fun r hr => hk₃ r (hk₂ r (hk₁ r hr)), fun r hr => ?_⟩
  · constructor
    · exact hk₃ _ (hk₂ _ (hk₁ _ hdirectory))
    · rw [← Path.below_singleton, hbelow, if_neg (by decide), if_neg (by decide), if_pos rfl]
    · refine ⟨manifest, hmanifest, ?_⟩
      rw [← Path.below_singleton, hbelow, if_neg (by decide), if_pos rfl]
    · rw [← Path.below_singleton, hbelow, if_pos rfl]
    · intro names hne
      by_contra hother
      simp only [not_or] at hother
      obtain ⟨h0, hcode, hman, htrig⟩ := hother
      rw [hbelow, if_neg htrig, if_neg hman, if_neg hcode] at hne
      exact hne (hempty names h0)
  · rw [ho₃ r hr, ho₂ r hr, ho₁ r hr]

/-! The place where a function is put together. -/

theorem not_slash_toString (n : Nat) : '/' ∉ (toString n).toList := by
  intro h
  have hdigits : (toString n).toList = Nat.toDigits 10 n := Nat.toList_repr
  rw [hdigits] at h
  exact absurd (Nat.isDigit_of_mem_toDigits (by omega) (by omega) h) (by decide)

theorem isName_stagingName {name : String} (h : Path.IsName name) (n : Nat) :
    Path.IsName (stagingName name n) := by
  have hlength : 3 ≤ (stagingName name n).toList.length := by
    have hname : 1 ≤ name.toList.length := by
      rw [Nat.one_le_iff_ne_zero, ne_eq, List.length_eq_zero_iff, String.toList_eq_nil_iff]
      exact h.not_empty
    simp only [stagingName, String.toList_append, List.length_append]
    have h1 : ".".toList.length = 1 := rfl
    have h2 : "-".toList.length = 1 := rfl
    omega
  constructor
  · rintro he
    rw [he] at hlength
    simp at hlength
  · rintro he
    rw [he] at hlength
    simp at hlength
  · rintro he
    rw [he] at hlength
    simp at hlength
  · simp only [stagingName, String.toList_append, List.mem_append, not_or]
    exact ⟨⟨⟨by decide, h.not_slash⟩, by decide⟩, not_slash_toString n⟩

theorem stagingName_ne (name : String) (n : Nat) : stagingName name n ≠ name := by
  intro h
  have hlength := congrArg (fun s => s.toList.length) h
  simp only [stagingName, String.toList_append, List.length_append] at hlength
  have h1 : ".".toList.length = 1 := rfl
  omega

theorem exists_stagingPath {name : String} (h : Path.IsName name) (t : Tree) (out : Path) :
    ∃ n, stagingPath t out name = out.child (stagingName name n) :=
  ⟨_, Path.join_of_isName (isName_stagingName h _)⟩

/-- A function of a name can be put at the name without the place being lost: the way to the
directory does not lead through it. -/
def Reachable (out : Path) (name : String) : Prop :=
  ∀ d ∈ out.way, d.within (out.goal.child name) = false

/-- A path without points leads through nothing that it contains. -/
theorem reachable_of_no_points (h : ∀ n ∈ out.names, n ≠ "." ∧ n ≠ "..") (name : String) :
    Reachable out name := by
  intro d hd
  obtain ⟨front, hfront, rfl⟩ := Path.mem_way.1 hd
  refine Bool.eq_false_iff.2 fun hin => ?_
  rw [Path.goal_eq_self h, Path.goal_eq_self fun n hn => h n (hfront.subset hn)] at hin
  obtain ⟨names, he⟩ := Path.within_iff.1 hin
  have hlength := congrArg (·.names.length) he
  have hle := hfront.length_le
  simp only [Path.below, Path.child, List.length_append, List.length_singleton] at hlength
  omega

/-- A directory of functions stays one when the directory of a function is replaced. -/
theorem isDirectory_of_reachable {name : String} (h : t.isDirectory out = true)
    (hclear : Reachable out name)
    (hsame : ∀ r, r.within (out.goal.child name) = false → t'.node? r = t.node? r) :
    t'.isDirectory out = true :=
  isDirectory_of_way h fun d hd hdir => (hsame d (hclear d hd)).trans hdir

/-- What stands at a name of a directory is taken away, with nothing else. -/
theorem exists_cleared {filled : Tree} {name : String} (hd : filled.isDirectory out = true)
    (hn : Path.IsName name) (hclear : Reachable out name)
    (htarget : filled.resolve (out.child name) = .ok (out.goal.child name)) :
    ∃ cleared, (if filled.isDirectory (out.child name) then filled.removeDirectory (out.child name)
        else (.ok (), filled.remove (out.child name))) = (.ok (), cleared) ∧
      ∀ r, cleared.node? r = if r.within (out.goal.child name) then none else filled.node? r := by
  have hnil : (out.goal.child name).names ≠ [] :=
    Path.names_ne_nil_of_within_child (Path.within_self _)
  split
  · rename_i hdirectory
    have hempty (r : Path) : (filled.clear (out.child name)).node? r =
        if r.within (out.goal.child name) && r != out.goal.child name then none
        else filled.node? r := node?_clear htarget hnil r
    have hd' : (filled.clear (out.child name)).isDirectory out = true :=
      isDirectory_of_reachable hd hclear fun r hr => by simp [hempty, hr]
    have htarget' : (filled.clear (out.child name)).resolve (out.child name) =
        .ok (out.goal.child name) :=
      (resolve_child_eq_ok_iff hd' hn).2 ((resolve_child_eq_ok_iff hd hn).1 htarget)
    have hcause : (filled.clear (out.child name)).removalCause? (out.child name) = none := by
      have hlast : (out.child name).names.getLast? = some name := by simp [Path.child]
      have hstays : (filled.clear (out.child name)).isDirectory (out.child name) = true := by
        obtain ⟨q, hq, hdir⟩ := isDirectory_iff.1 hdirectory
        obtain rfl := Except.ok.inj (htarget.symm.trans hq)
        exact isDirectory_iff.2 ⟨_, htarget', by simp [hempty, hdir]⟩
      simp only [removalCause?, hlast, if_neg hn.not_points, if_pos hstays]
    refine ⟨(filled.clear (out.child name)).remove (out.child name), ?_, fun r => ?_⟩
    · simp only [removeDirectory, hcause]
    · rw [node?_remove htarget' hnil, hempty]
      cases r.within (out.goal.child name) <;> simp
  · exact ⟨_, rfl, node?_remove htarget hnil⟩

/-- Once a function is put together it takes the place of what stood at its name. -/
theorem node?_replace {filled cleared : Tree} {staging name : String}
    (hd : filled.isDirectory out = true) (hn : Path.IsName name) (hs : Path.IsName staging)
    (hne : staging ≠ name) (hclear : Reachable out name)
    (htarget : filled.resolve (out.child name) = .ok (out.goal.child name))
    (hstaging : filled.resolve (out.child staging) = .ok (out.goal.child staging))
    (hplace : filled.node? (out.goal.child staging) = some .directory)
    (hcleared : ∀ r, cleared.node? r =
      if r.within (out.goal.child name) then none else filled.node? r) :
    cleared.isDirectory (out.child staging) = true ∧
      (∀ names, (cleared.move (out.child staging) (out.child name)).node?
        ((out.goal.child name).below names) = filled.node? ((out.goal.child staging).below names)) ∧
      ∀ r, r.within (out.goal.child name) = false →
        (cleared.move (out.child staging) (out.child name)).node? r =
          if r.within (out.goal.child staging) then none else filled.node? r := by
  have hnil (name : String) : (out.goal.child name).names ≠ [] :=
    Path.names_ne_nil_of_within_child (Path.within_self _)
  have hdirectory : cleared.isDirectory out = true :=
    isDirectory_of_reachable hd hclear fun r hr => by
      rw [hcleared, hr, if_neg Bool.false_ne_true]
  have hapart (names : List String) :
      ((out.goal.child staging).below names).within (out.goal.child name) = false :=
    Path.not_within_child (Path.within_below _ names) hne
  have htarget' : cleared.resolve (out.child name) = .ok (out.goal.child name) :=
    (resolve_child_eq_ok_iff hdirectory hn).2 ((resolve_child_eq_ok_iff hd hn).1 htarget)
  have hstaging' : cleared.resolve (out.child staging) = .ok (out.goal.child staging) :=
    (resolve_child_eq_ok_iff hdirectory hs).2 ((resolve_child_eq_ok_iff hd hs).1 hstaging)
  refine ⟨isDirectory_iff.2 ⟨_, hstaging', ?_⟩, fun names => ?_, fun r hr => ?_⟩
  · have hself := hapart []
    rw [Path.below_nil] at hself
    rw [hcleared, hself, if_neg Bool.false_ne_true, hplace]
  · rw [node?_move_below hstaging' htarget' (hnil staging) (hnil name)]
    · rw [hcleared, hapart, if_neg Bool.false_ne_true]
    · intro names
      rw [hcleared, Path.within_below, if_pos rfl]
  · rw [node?_move_of_not_within hstaging' htarget' (hnil staging) hr, hcleared, hr,
      if_neg Bool.false_ne_true]

/-- A function is put together where nothing stood, and nothing else changes. -/
theorem written_of_staged {staged filled : Tree} {staging : String} (hs : Path.IsName staging)
    (hempty : ∀ name names, t.node? (out.goal.child name) = none →
      t.node? ((out.goal.child name).below names) = none)
    (hmade : t.makeDirectory (out.child staging) = .ok staged)
    (hfill : fillUnit write staged (out.child staging) u = .ok filled) :
    t.resolve (out.child staging) = .ok (out.goal.child staging) ∧
      (∀ names, t.node? ((out.goal.child staging).below names) = none) ∧
      KeepsDirectories t filled ∧ Written write filled (out.goal.child staging) u ∧
      ∀ r, r.within (out.goal.child staging) = false → filled.node? r = t.node? r := by
  have hgoal : (out.child staging).goal = out.goal.child staging := by
    rw [Path.goal_child, Path.follow_of_isName hs]
  obtain ⟨hresolve, hfree, rfl⟩ := exists_of_makeDirectory hmade
  have hnotdir : t.node? (out.child staging).goal ≠ some .directory := by simp [hfree]
  have hnone (names : List String) : t.node? ((out.child staging).goal.below names) = none := by
    rw [hgoal] at hfree ⊢
    exact hempty staging names hfree
  obtain ⟨hwritten, hkeeps, hother⟩ := written_of_fillUnit hfill (node?_setNode_self hnotdir) (by
    intro names hnames
    have hne : (out.child staging).goal.below names ≠ (out.child staging).goal :=
      fun e => hnames (Path.below_inj (e.trans (Path.below_nil _).symm))
    rw [node?_setNode_of_ne hne, hnone])
  rw [hgoal] at *
  refine ⟨hresolve, hnone, fun r hr => hkeeps r (keepsDirectories_setNode hnotdir r hr), hwritten,
    fun r hr => ?_⟩
  rw [hother r hr, node?_setNode_of_ne]
  rintro rfl
  rw [Path.within_self] at hr
  cases hr

/-- A function that could be put together has a path. -/
theorem resolve_of_staging {filled : Tree} {name : String} {n : Nat} (hd : t.isDirectory out = true)
    (hfilled : filled.isDirectory out = true) (hn : Path.IsName name)
    (hstaging : t.resolve (out.child (stagingName name n)) =
      .ok (out.goal.child (stagingName name n))) :
    filled.resolve (out.child name) = .ok (out.goal.child name) := by
  obtain ⟨hcause, hlength, -⟩ :=
    (resolve_child_eq_ok_iff hd (isName_stagingName hn n)).1 hstaging
  refine (resolve_child_eq_ok_iff hfilled hn).2 ⟨?_, ?_, rfl⟩
  · rw [stagingName, String.append_assoc] at hcause
    exact pathCause?_child hcause
  · simp only [stagingName, String.utf8ByteSize_append] at hlength
    omega

/-- Writing a function leaves all files as they were, or replaces what stood at its name by its
directory and leaves the others as they were. -/
theorem writeUnit_cases (write : GeneratedUnit → Except String String) {t₀ : Tree} (hm : t₀.makeDirectories out = .ok t)
    (hn : Path.IsName u.name) (hclear : Reachable out u.name)
    (hempty : ∀ name names, t.node? (out.goal.child name) = none →
      t.node? ((out.goal.child name).below names) = none) :
    (∃ message, writeUnit write t₀ out u = (.error message, t)) ∨
      ∃ t', writeUnit write t₀ out u = (.ok (unitPath out u.name), t') ∧
        Written write t' (out.goal.child u.name) u ∧
        ∀ r, r.within (out.goal.child u.name) = false → t'.node? r = t.node? r := by
  have hd : t.isDirectory out = true := isDirectory_of_makeDirectories hm
  obtain ⟨n, hpath⟩ := exists_stagingPath hn t out
  have hs := isName_stagingName hn n
  unfold writeUnit
  rw [hm]
  dsimp only
  rw [hpath]
  cases hmade : t.makeDirectory (out.child (stagingName u.name n)) with
  | error f => exact .inl ⟨_, rfl⟩
  | ok staged =>
    dsimp only
    cases hfill : fillUnit write staged (out.child (stagingName u.name n)) u with
    | error message => exact .inl ⟨_, rfl⟩
    | ok filled =>
      right
      obtain ⟨hresolve, hnone, hkept, hwritten, hother⟩ := written_of_staged hs hempty hmade hfill
      have hfilled : filled.isDirectory out = true := isDirectory_of_keeps hkept hd
      have htarget := resolve_of_staging hd hfilled hn hresolve
      obtain ⟨cleared, heq, hcleared⟩ := exists_cleared hfilled hn hclear htarget
      obtain ⟨hready, hbelow, hsame⟩ := node?_replace hfilled hn hs (stagingName_ne u.name n) hclear
        htarget (resolve_of_keeps hkept hresolve) hwritten.directory hcleared
      have hunit : unitPath out u.name = out.child u.name := Path.join_of_isName hn
      dsimp only
      rw [hunit, heq]
      dsimp only
      rw [hready, if_pos rfl]
      refine ⟨_, rfl, hwritten.of_below hbelow, fun r hr => ?_⟩
      rw [hsame r hr]
      cases hin : r.within (out.goal.child (stagingName u.name n)) with
      | false => rw [if_neg Bool.false_ne_true, hother r hin]
      | true =>
        obtain ⟨names, rfl⟩ := Path.within_iff.1 hin
        rw [if_pos rfl, hnone]

end BackendMigration.Migration
