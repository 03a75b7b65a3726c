import BackendMigration.File.Contents
import BackendMigration.Proofs.File.Way

/-! Trees in which all that stands anywhere stands in a directory, and what taking away and moving do
to a tree. -/
namespace BackendMigration.File.Tree

variable {t t' : Tree} {p q r : Path} {n : Node} {name : String}

/-- All that stands anywhere stands in a directory. -/
def Closed (t : Tree) : Prop := ∀ p, t.node? p ≠ none → t.node? p.parent = some .directory

theorem closed_empty : empty.Closed := by
  intro p hp
  have hnil : p.names = [] := by
    by_contra hne
    simp [node?, empty, hne] at hp
  have hparent : p.parent.names = [] := by simp [Path.parent, hnil]
  simp [node?, hparent]

/-- Below what is no directory there is nothing. -/
theorem Closed.node?_below (h : t.Closed) (hp : t.node? p ≠ some .directory) {names : List String}
    (hne : names ≠ []) : t.node? (p.below names) = none := by
  induction names using List.reverseRecOn with
  | nil => exact absurd rfl hne
  | append_singleton front last ih =>
    by_contra hsome
    have hparent := h _ hsome
    rw [Path.below_concat, Path.parent_child] at hparent
    by_cases hfront : front = []
    · rw [hfront, Path.below_nil] at hparent
      exact hp hparent
    · rw [ih hfront] at hparent
      cases hparent

theorem Closed.setNode (h : t.Closed) (hp : t.node? p ≠ some .directory)
    (hparent : t.node? p.parent = some .directory) : (t.setNode p n).Closed := by
  have hkeeps := keepsDirectories_setNode (n := n) hp
  intro q hq
  by_cases he : q = p
  · rw [he]
    exact hkeeps _ hparent
  · rw [node?_setNode_of_ne he] at hq
    exact hkeeps _ (h q hq)

/-- What making one directory keeps, making all on the way keeps. -/
theorem makeDirectoriesFrom_induction {I : Tree → Prop} {absolute : Bool} {names : List String}
    (hstep : ∀ {u u' : Tree} {p : Path}, I u → u.makeDirectory p = .ok u' → I u') (h : I t)
    (hm : t.makeDirectoriesFrom absolute names = .ok t') : I t' := by
  induction names generalizing t' with
  | nil =>
    cases hm
    exact h
  | cons name rest ih =>
    unfold Tree.makeDirectoriesFrom at hm
    dsimp only at hm
    split at hm
    · rename_i made hmade
      cases hm
      exact hstep h hmade
    · cases hr : t.makeDirectoriesFrom absolute rest with
      | error f => simp [hr, bind, Except.bind] at hm
      | ok above =>
        simp only [hr, bind, Except.bind] at hm
        split at hm
        · rename_i made hmade
          cases hm
          exact hstep (ih hr) hmade
        · split at hm
          · cases hm
            exact ih hr
          · cases hm
    · split at hm
      · cases hm
        exact h
      · cases hm

/-- Something that making a directory and writing a file keep. -/
structure Lasting (I : Tree → Prop) : Prop where
  make : ∀ {u u' : Tree} {p : Path}, I u → u.makeDirectory p = .ok u' → I u'
  write : ∀ {u u' : Tree} {p : Path} {bytes : ByteArray}, I u → u.write p bytes = .ok u' → I u'

namespace Lasting

variable {I : Tree → Prop}

theorem makeDirectories (hI : Lasting I) (h : I t) (hm : t.makeDirectories p = .ok t') : I t' :=
  makeDirectoriesFrom_induction hI.make h hm

/-- It holds of every tree of given files. -/
theorem ofFiles (hI : Lasting I) (hempty : I empty) (files : List (Path × Node)) :
    I (Tree.ofFiles files) := by
  have hgetD : ∀ {u : Tree} {x : Except Fault Tree}, I u → (∀ u', x = .ok u' → I u') →
      I (x.toOption.getD u) := by
    intro u x hu hx
    cases x with
    | error f => exact hu
    | ok u' => exact hx u' rfl
  refine List.foldlRecOn files _ hempty fun u hu f _ => ?_
  obtain ⟨path, node⟩ := f
  cases node with
  | directory => exact hgetD hu fun u' hm => hI.makeDirectories hu hm
  | file bytes =>
    have hd := hgetD hu fun u' (hm : u.makeDirectories path.parent = .ok u') =>
      hI.makeDirectories hu hm
    exact hgetD hd fun u' hw => hI.write hd hw

theorem append {bytes : ByteArray} (hI : Lasting I) (h : I t) (hw : t.append p bytes = .ok t') :
    I t' := by
  unfold Tree.append at hw
  split at hw
  · exact hI.write h hw
  · exact hI.write h hw

theorem writeText (hI : Lasting I) (h : I t) (p : Path) (text : Text) :
    I (t.writeText p text).2 := by
  unfold Tree.writeText
  dsimp only
  split
  · exact h
  · rename_i hw
    exact hI.write h hw

theorem appendText (hI : Lasting I) (h : I t) (p : Path) (text : Text) :
    I (t.appendText p text).2 := by
  unfold Tree.appendText
  dsimp only
  split
  · exact h
  · rename_i hw
    exact hI.append h hw

end Lasting

theorem exists_of_makeDirectory (h : t.makeDirectory p = .ok t') :
    t.resolve p = .ok p.goal ∧ t.node? p.goal = none ∧ t' = t.setNode p.goal .directory := by
  unfold makeDirectory reach at h
  cases hq : t.resolve p with
  | error cause => simp [hq, faultAt, bind, Except.bind] at h
  | ok q =>
    simp only [hq, bind, Except.bind] at h
    split at h
    · cases h
    · rename_i hn
      cases h
      obtain rfl := goal_of_resolve hq
      exact ⟨rfl, hn, rfl⟩

/-- What stands in one tree stands in the other. -/
def Extends (base t : Tree) : Prop := ∀ p, base.node? p ≠ none → t.node? p = base.node? p

theorem Extends.trans {base t t' : Tree} (h : Extends base t) (h' : Extends t t') :
    Extends base t' := by
  intro p hp
  have hsame := h p hp
  rw [← hsame]
  exact h' p (hsame ▸ hp)

theorem extends_makeDirectory (hm : t.makeDirectory p = .ok t') : Extends t t' := by
  obtain ⟨-, hn, rfl⟩ := exists_of_makeDirectory hm
  intro q hq
  refine node?_setNode_of_ne ?_
  rintro rfl
  exact hq hn

theorem extends_makeDirectoriesFrom {absolute : Bool} {names : List String}
    (hm : t.makeDirectoriesFrom absolute names = .ok t') : Extends t t' :=
  makeDirectoriesFrom_induction (fun hu hmade => hu.trans (extends_makeDirectory hmade))
    (fun _ _ => rfl) hm

theorem Closed.makeDirectory (h : t.Closed) (hm : t.makeDirectory p = .ok t') : t'.Closed := by
  obtain ⟨hq, hn, rfl⟩ := exists_of_makeDirectory hm
  refine h.setNode (by simp [hn]) ?_
  unfold resolve at hq
  split at hq
  · cases hq
  · rcases List.eq_nil_or_concat p.names with hnil | ⟨front, last, hlast⟩
    · rw [Path.goal, hnil] at hn
      simp [node?] at hn
    · rw [hlast, List.concat_eq_append] at hq
      obtain ⟨d, -, hd, hgoal⟩ := exists_of_resolveFrom_concat hq
      rw [hgoal] at hn ⊢
      unfold Path.follow at hn ⊢
      split at hn
      · rw [hd] at hn
        cases hn
      · split at hn
        · have hparent := h d (by simp [hd])
          rw [hparent] at hn
          cases hn
        · rename_i h1 h2
          rw [if_neg h1, if_neg h2, Path.parent_child]
          exact hd

theorem Closed.write {bytes : ByteArray} (h : t.Closed) (hw : t.write p bytes = .ok t') :
    t'.Closed := by
  obtain ⟨q, hq⟩ := receives_of_write hw
  rw [hq.write] at hw
  cases hw
  exact h.setNode hq.not_directory hq.parent_directory

theorem lasting_closed : Lasting Closed := ⟨Closed.makeDirectory, Closed.write⟩

theorem Closed.makeDirectories (h : t.Closed) (hm : t.makeDirectories p = .ok t') : t'.Closed :=
  lasting_closed.makeDirectories h hm

/-- A tree of given files is closed. -/
theorem closed_ofFiles (files : List (Path × Node)) : (ofFiles files).Closed :=
  lasting_closed.ofFiles closed_empty files

/-- Where something stands, something goes on standing. -/
theorem lasting_stands (p : Path) : Lasting fun t => t.node? p ≠ none := by
  constructor
  · intro u u' q h hm
    rw [extends_makeDirectory hm p h]
    exact h
  · intro u u' q bytes h hw
    obtain ⟨goal, hgoal⟩ := receives_of_write hw
    rw [hgoal.write] at hw
    cases hw
    by_cases he : p = goal
    · rw [he, node?_setNode_self hgoal.not_directory]
      exact Option.some_ne_none _
    · rw [node?_setNode_of_ne he]
      exact h

/-! Taking away and moving. -/

theorem node?_of_ne_nil (hr : r.names ≠ []) :
    t.node? r = (t.entries.find? (·.1 == r)).map (·.2) := by
  have hempty : r.names.isEmpty = false := by simpa using hr
  rw [node?, hempty, if_neg Bool.false_ne_true]

/-- The first pair of a path is the same in two lists of pairs that have the same pairs of it. -/
theorem find?_eq_of_filter_eq {es fs : List (Path × Node)}
    (h : es.filter (·.1 == r) = fs.filter (·.1 == r)) :
    es.find? (·.1 == r) = fs.find? (·.1 == r) := by
  rw [← List.head?_filter, h, List.head?_filter]

/-- What is left when the paths of a kind are taken away, of which the root is none. -/
theorem node?_filter (gone : Path → Bool) (hroot : ∀ r, r.names = [] → gone r = false) (r : Path) :
    (Tree.mk (t.entries.filter fun e => !gone e.1)).node? r = if gone r then none else t.node? r := by
  by_cases hr : r.names = []
  · simp [node?, hr, hroot r hr]
  · rw [node?_of_ne_nil hr]
    cases hw : gone r with
    | true =>
      have hnone : (t.entries.filter fun e => !gone e.1).find? (·.1 == r) = none := by
        rw [List.find?_eq_none]
        intro e he her
        have hout := (List.mem_filter.1 he).2
        rw [beq_iff_eq.1 her, hw] at hout
        cases hout
      rw [hnone]
      rfl
    | false =>
      rw [node?_of_ne_nil hr, if_neg Bool.false_ne_true]
      refine congrArg _ (find?_eq_of_filter_eq ?_)
      rw [List.filter_filter]
      refine List.filter_congr fun e he => ?_
      by_cases her : e.1 = r
      · simp [her, hw]
      · simp [her]

theorem not_within_of_nil (hq : q.names ≠ []) (hr : r.names = []) : r.within q = false := by
  refine Bool.eq_false_iff.2 fun hw => ?_
  obtain ⟨names, rfl⟩ := Path.within_iff.1 hw
  exact hq (List.append_eq_nil_iff.1 hr).1

theorem node?_remove (hp : t.resolve p = .ok q) (hne : q.names ≠ []) (r : Path) :
    (t.remove p).node? r = if r.within q then none else t.node? r := by
  have hremove : t.remove p = ⟨t.entries.filter fun e => !e.1.within q⟩ := by rw [remove, hp]
  rw [hremove, node?_filter (fun r => r.within q) fun r => not_within_of_nil hne]

theorem node?_clear (hp : t.resolve p = .ok q) (hne : q.names ≠ []) (r : Path) :
    (t.clear p).node? r = if r.within q && r != q then none else t.node? r := by
  have hclear : t.clear p = ⟨t.entries.filter fun e => !(e.1.within q && e.1 != q)⟩ := by
    rw [clear, hp]
    refine congrArg Tree.mk (List.filter_congr fun e _ => ?_)
    simp [bne]
  rw [hclear]
  refine node?_filter (fun r => r.within q && r != q) (fun r hr => ?_) r
  rw [not_within_of_nil hne hr, Bool.false_and]

theorem node?_ne_none_of_mem {e : Path × Node} (h : e ∈ t.entries) : t.node? e.1 ≠ none := by
  by_cases hr : e.1.names = []
  · simp [node?, hr]
  · rw [node?_of_ne_nil hr, ne_eq, Option.map_eq_none_iff, List.find?_eq_none]
    exact fun hn => hn e h (beq_self_eq_true e.1)

section Move

variable {a b : Path}

/-- Where a move from one place to another takes a path. -/
def movedTo (a b r : Path) : Path :=
  if r.within a then b.below (r.names.drop a.names.length) else r

theorem movedTo_below (names : List String) : movedTo a b (a.below names) = b.below names := by
  rw [movedTo, Path.within_below, if_pos rfl, Path.below]
  simp [Path.below]

theorem movedTo_of_not_within (h : r.within a = false) : movedTo a b r = r := by
  rw [movedTo, h, if_neg Bool.false_ne_true]

theorem move_eq (hp : t.resolve p = .ok a) (hq : t.resolve q = .ok b) :
    t.move p q = ⟨t.entries.map fun e => (movedTo a b e.1, e.2)⟩ := by
  unfold move
  rw [hp, hq]
  refine congrArg Tree.mk (List.map_congr_left fun e he => ?_)
  unfold movedTo
  split <;> rfl

/-- The pairs of a path after a move are those of one path before it. -/
theorem node?_move_of_iff (hp : t.resolve p = .ok a) (hq : t.resolve q = .ok b) {r s : Path}
    (hr : r.names ≠ []) (hs : s.names ≠ [])
    (h : ∀ e ∈ t.entries, movedTo a b e.1 = r ↔ e.1 = s) : (t.move p q).node? r = t.node? s := by
  rw [node?_of_ne_nil hr, node?_of_ne_nil hs, move_eq hp hq, List.find?_map, Option.map_map]
  refine congrArg _ ?_
  have hfilter : t.entries.filter ((fun e => e.1 == r) ∘ fun e => (movedTo a b e.1, e.2)) =
      t.entries.filter (·.1 == s) := by
    refine List.filter_congr fun e he => ?_
    rw [Bool.eq_iff_iff, Function.comp_apply, beq_iff_eq, beq_iff_eq]
    exact h e he
  rw [← List.head?_filter, hfilter, List.head?_filter]

/-- What stood at one place and below it stands at the other one, where nothing stood. -/
theorem node?_move_below (hp : t.resolve p = .ok a) (hq : t.resolve q = .ok b)
    (ha : a.names ≠ []) (hb : b.names ≠ []) (hfree : ∀ names, t.node? (b.below names) = none)
    (names : List String) : (t.move p q).node? (b.below names) = t.node? (a.below names) := by
  refine node?_move_of_iff hp hq (by simp [Path.below, hb]) (by simp [Path.below, ha]) ?_
  intro e he
  constructor
  · intro h
    by_cases hw : e.1.within a = true
    · obtain ⟨ns, hns⟩ := Path.within_iff.1 hw
      rw [hns, movedTo_below] at h
      rw [hns, Path.below_inj h]
    · rw [movedTo_of_not_within (Bool.eq_false_iff.2 hw)] at h
      exact absurd (h ▸ hfree names) (node?_ne_none_of_mem he)
  · intro h
    rw [h, movedTo_below]

/-- Elsewhere a move changes nothing, but that the first place is empty. -/
theorem node?_move_of_not_within (hp : t.resolve p = .ok a) (hq : t.resolve q = .ok b)
    (ha : a.names ≠ []) (hr : r.within b = false) :
    (t.move p q).node? r = if r.within a then none else t.node? r := by
  by_cases hnil : r.names = []
  · have hw : r.within a = false := not_within_of_nil ha hnil
    simp [node?, hnil, hw]
  · have hmoved : ∀ e : Path × Node, movedTo a b e.1 = r → e.1.within a = false := by
      intro e he
      refine Bool.eq_false_iff.2 fun hw => ?_
      obtain ⟨ns, hns⟩ := Path.within_iff.1 hw
      rw [hns, movedTo_below] at he
      rw [← he, Path.within_below] at hr
      cases hr
    cases hw : r.within a with
    | true =>
      rw [if_pos rfl, node?_of_ne_nil hnil, move_eq hp hq, Option.map_eq_none_iff, List.find?_eq_none]
      intro e he her
      obtain ⟨f, -, rfl⟩ := List.mem_map.1 he
      have hto : movedTo a b f.1 = r := beq_iff_eq.1 her
      have hout := hmoved f hto
      rw [movedTo_of_not_within hout] at hto
      rw [hto, hw] at hout
      cases hout
    | false =>
      rw [if_neg Bool.false_ne_true]
      refine node?_move_of_iff hp hq hnil hnil fun e he => ?_
      constructor
      · intro h
        rwa [movedTo_of_not_within (hmoved e h)] at h
      · intro h
        rw [h, movedTo_of_not_within hw]

end Move

end BackendMigration.File.Tree
