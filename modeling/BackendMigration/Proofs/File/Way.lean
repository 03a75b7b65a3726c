import BackendMigration.Proofs.File.Tree
import BackendMigration.Proofs.Text.Utf8
import Mathlib.Data.List.Induction
import Mathlib.Data.List.Infix
import Mathlib.Data.String.Basic

/-! Where paths lead, and which paths are paths at all. -/
namespace BackendMigration.File

namespace Path

variable {p q r : Path} {name : String}

/-- Where a path leads when all on the way is a directory. -/
def goal (p : Path) : Path := p.names.foldl follow ⟨p.absolute, []⟩

/-- The path of names below another path. -/
def below (p : Path) (names : List String) : Path := ⟨p.absolute, p.names ++ names⟩

/-- The paths from which and to which the names of a path are followed. -/
def way (p : Path) : List Path := p.names.inits.map fun front => goal ⟨p.absolute, front⟩

@[simp] theorem below_nil (p : Path) : p.below [] = p := by
  simp [below]

@[simp] theorem below_singleton (p : Path) (name : String) : p.below [name] = p.child name := rfl

theorem below_concat (p : Path) (names : List String) (name : String) :
    p.below (names ++ [name]) = (p.below names).child name := by
  simp [below, child, List.append_assoc]

theorem within_iff : p.within q = true ↔ ∃ names, p = q.below names := by
  obtain ⟨a, ns⟩ := p
  obtain ⟨b, ms⟩ := q
  simp only [within, Bool.and_eq_true, beq_iff_eq, List.isPrefixOf_iff_prefix, below, mk.injEq]
  constructor
  · rintro ⟨rfl, names, rfl⟩
    exact ⟨names, rfl, rfl⟩
  · rintro ⟨names, rfl, rfl⟩
    exact ⟨rfl, names, rfl⟩

@[simp] theorem within_below (p : Path) (names : List String) : (p.below names).within p = true :=
  within_iff.2 ⟨names, rfl⟩

@[simp] theorem within_self (p : Path) : p.within p = true := within_iff.2 ⟨[], (below_nil p).symm⟩

theorem below_inj {ns ms : List String} (h : p.below ns = p.below ms) : ns = ms := by
  simpa [below] using h

/-- What is below one name in a directory is not below another one. -/
theorem not_within_child {a b : String} (h : p.within (r.child a) = true) (hne : a ≠ b) :
    p.within (r.child b) = false := by
  obtain ⟨ns, rfl⟩ := within_iff.1 h
  refine Bool.eq_false_iff.2 fun hb => ?_
  obtain ⟨ms, hm⟩ := within_iff.1 hb
  have hnames : r.below (a :: ns) = r.below (b :: ms) := by
    simpa [below, child, List.append_assoc] using hm
  exact hne (List.cons.inj (below_inj hnames)).1

theorem names_ne_nil_of_within_child (h : p.within (q.child name) = true) : p.names ≠ [] := by
  obtain ⟨ns, rfl⟩ := within_iff.1 h
  simp [below, child]

theorem goal_child (p : Path) (name : String) : (p.child name).goal = p.goal.follow name := by
  simp [goal, child, List.foldl_append]

theorem mem_way : q ∈ p.way ↔ ∃ front, front <+: p.names ∧ goal ⟨p.absolute, front⟩ = q := by
  simp [way, List.mem_inits]

theorem goal_mem_way (p : Path) : p.goal ∈ p.way := mem_way.2 ⟨p.names, List.prefix_rfl, rfl⟩

/-- A path without points leads where it says. -/
theorem goal_eq_self (h : ∀ n ∈ p.names, n ≠ "." ∧ n ≠ "..") : p.goal = p := by
  obtain ⟨absolute, names⟩ := p
  change names.foldl follow ⟨absolute, []⟩ = _
  induction names using List.reverseRecOn with
  | nil => rfl
  | append_singleton names name ih =>
    obtain ⟨h1, h2⟩ := h name (by simp)
    rw [List.foldl_append, ih fun n hn => h n (List.mem_append_left _ hn), List.foldl_cons,
      List.foldl_nil, follow, if_neg h1, if_neg h2, child]

/-- A text that names something in a directory. -/
structure IsName (name : String) : Prop where
  not_empty : name ≠ ""
  not_point : name ≠ "."
  not_points : name ≠ ".."
  not_slash : '/' ∉ name.toList

theorem follow_of_isName (h : IsName name) : p.follow name = p.child name := by
  rw [follow, if_neg h.not_point, if_neg h.not_points]

theorem ofText_of_isName (h : IsName name) : ofText name = ⟨false, [name]⟩ := by
  have hne : name.toList ≠ [] := fun e => h.not_empty (String.toList_eq_nil_iff.1 e)
  have hpoint : name.toList ≠ ['.'] := fun e => h.not_point (String.toList_injective e)
  have hhead : (name.toList.head? == some '/') = false := by
    refine beq_eq_false_iff_ne.2 fun e => h.not_slash ?_
    exact List.mem_of_mem_head? e
  have hcut : ∀ c ∈ name.toList, (c == '/') = false :=
    fun c hc => beq_eq_false_iff_ne.2 fun e => h.not_slash (e ▸ hc)
  rw [ofText, Text.splitBy_of_not_cut hcut, hhead]
  simp [hne, hpoint]

theorem join_of_isName (h : IsName name) : p.join (ofText name) = p.child name := by
  rw [ofText_of_isName h]
  rfl

/-- The path of a name in a directory begins with the same text for every name. -/
theorem exists_text_child (p : Path) : ∃ front, ∀ name, (p.child name).text = front ++ name := by
  obtain ⟨absolute, names⟩ := p
  have hnames : ∃ front, ∀ name, "/".intercalate (names ++ [name]) = front ++ name := by
    by_cases h : names = []
    · subst h
      exact ⟨"", fun name => by rw [List.nil_append, String.intercalate_singleton, String.empty_append]⟩
    · refine ⟨"/".intercalate names ++ "/", fun name => ?_⟩
      rw [String.intercalate_append_of_ne_nil h (List.cons_ne_nil _ _), String.intercalate_singleton]
  obtain ⟨front, hfront⟩ := hnames
  cases absolute with
  | true => exact ⟨"/" ++ front, fun name => by simp [text, child, hfront, String.append_assoc]⟩
  | false => exact ⟨front, fun name => by simp [text, child, hfront]⟩

end Path

theorem unwritable?_eq_none_iff {t : Text} :
    unwritable? t = none ↔ ∀ c ∈ t, Text.half? c = none ∨ isByteHalf c = true := by
  induction t with
  | nil => simp [unwritable?, Utf8.unwritable?]
  | cons c r ih =>
    by_cases hc : ((Text.half? c).isNone || isByteHalf c) = true
    · have hor : Text.half? c = none ∨ isByteHalf c = true := by simpa using hc
      rw [List.forall_mem_cons, ← ih]
      simp [unwritable?, hc, hor]
    · have hhalf : Text.half? c ≠ none := by
        intro hn
        simp [hn] at hc
      have hbyte : isByteHalf c ≠ true := by
        intro hb
        simp [hb] at hc
      have hsome : Utf8.unwritable? (c :: r) ≠ none := by
        rw [Ne, Utf8.unwritable?_eq_none_iff]
        exact fun h => hhalf (h c List.mem_cons_self)
      simp [unwritable?, hsome, hhalf, hbyte]

theorem pathCause?_eq_none_iff {path : String} :
    pathCause? path = none ↔
      (∀ c ∈ path.toList, (Text.half? c = none ∨ isByteHalf c = true) ∧ c ≠ '\x00') ∧
        path.utf8ByteSize < pathLimit := by
  unfold pathCause?
  cases hu : unwritable? path.toList with
  | some u =>
    have hnot := mt unwritable?_eq_none_iff.2 fun h => Option.some_ne_none u (hu.symm.trans h)
    simp only [reduceCtorEq, false_iff]
    rintro ⟨h, -⟩
    exact hnot fun c hc => (h c hc).1
  | none =>
    have hall := unwritable?_eq_none_iff.1 hu
    dsimp only
    by_cases hnull : '\x00' ∈ path.toList
    · have : path.toList.contains '\x00' = true := by simpa using hnull
      rw [if_pos this]
      simp only [reduceCtorEq, false_iff]
      rintro ⟨h, -⟩
      exact (h _ hnull).2 rfl
    · have : path.toList.contains '\x00' = false := by simpa using hnull
      rw [this, if_neg Bool.false_ne_true]
      have hchars : ∀ c ∈ path.toList, (Text.half? c = none ∨ isByteHalf c = true) ∧ c ≠ '\x00' :=
        fun c hc => ⟨hall c hc, fun e => hnull (e ▸ hc)⟩
      by_cases hlong : pathLimit ≤ path.utf8ByteSize
      · rw [if_pos hlong]
        simp only [reduceCtorEq, false_iff]
        omega
      · rw [if_neg hlong]
        simp only [true_iff]
        exact ⟨hchars, by omega⟩

/-- A path to a name is a path if the name stands in the name of one. -/
theorem pathCause?_child {p : Path} {name before after : String}
    (h : pathCause? (p.child (before ++ name ++ after)).text = none) :
    pathCause? (p.child name).text = none := by
  obtain ⟨front, hfront⟩ := p.exists_text_child
  rw [hfront, pathCause?_eq_none_iff] at h ⊢
  obtain ⟨hchars, hsize⟩ := h
  constructor
  · intro c hc
    rw [String.toList_append, List.mem_append] at hc
    refine hchars c ?_
    simp only [String.toList_append, List.mem_append]
    exact hc.imp_right fun hc => .inl (.inr hc)
  · simp only [String.utf8ByteSize_append] at hsize ⊢
    omega

namespace Tree

variable {t t' : Tree} {p q : Path} {name : String}

theorem resolveFrom_eq_ok_iff {names : List String} :
    t.resolveFrom p names = .ok q ↔ q = names.foldl Path.follow p ∧
      (∀ n ∈ names, n.utf8ByteSize ≤ nameLimit) ∧
      ∀ front last, front ++ [last] <+: names →
        t.node? (front.foldl Path.follow p) = some .directory := by
  induction names generalizing p with
  | nil =>
    have hnone (front : List String) (last : String) : ¬front ++ [last] <+: [] := fun h =>
      List.append_ne_nil_of_right_ne_nil front (List.cons_ne_nil last []) (List.prefix_nil.1 h)
    constructor
    · intro h
      cases h
      exact ⟨rfl, fun n hn => absurd hn List.not_mem_nil, fun front last hl => (hnone _ _ hl).elim⟩
    · rintro ⟨rfl, -⟩
      rfl
  | cons n r ih =>
    have hfront (P : Path → Prop) : (∀ front last, front ++ [last] <+: n :: r →
        P (front.foldl Path.follow p)) ↔
        P p ∧ ∀ front last, front ++ [last] <+: r → P (front.foldl Path.follow (p.follow n)) := by
      constructor
      · intro h
        exact ⟨h [] n (by simp), fun front last hl => h (n :: front) last (List.cons_prefix_cons.2 ⟨rfl, hl⟩)⟩
      · rintro ⟨h0, h⟩ front last hl
        cases front with
        | nil => exact h0
        | cons m front =>
          obtain ⟨rfl, hrest⟩ := List.cons_prefix_cons.1 hl
          exact h front last hrest
    rw [hfront fun d => t.node? d = some .directory, List.foldl_cons, List.forall_mem_cons]
    simp only [resolveFrom]
    cases hn : t.node? p with
    | none => simp
    | some node =>
      cases node with
      | file bytes => simp
      | directory =>
        dsimp only
        by_cases hl : nameLimit < n.utf8ByteSize
        · have : ¬n.utf8ByteSize ≤ nameLimit := by omega
          simp [hl, this]
        · rw [if_neg hl, ih]
          have : n.utf8ByteSize ≤ nameLimit := by omega
          simp [this]

theorem goal_of_resolve (h : t.resolve p = .ok q) : q = p.goal := by
  unfold resolve at h
  split at h
  · cases h
  · exact (resolveFrom_eq_ok_iff.1 h).1

/-- A path is a directory if every place on the way is one. -/
theorem isDirectory_iff_way : t.isDirectory p = true ↔
    pathCause? p.text = none ∧ (∀ n ∈ p.names, n.utf8ByteSize ≤ nameLimit) ∧
      ∀ d ∈ p.way, t.node? d = some .directory := by
  rw [isDirectory_iff]
  unfold resolve
  constructor
  · rintro ⟨q, hq, hd⟩
    split at hq
    · cases hq
    · rename_i hcause
      obtain ⟨rfl, hlengths, hway⟩ := resolveFrom_eq_ok_iff.1 hq
      refine ⟨hcause, hlengths, fun d hdw => ?_⟩
      obtain ⟨front, hfront, rfl⟩ := Path.mem_way.1 hdw
      rcases hfront with ⟨rest, hrest⟩
      cases rest with
      | nil =>
        rw [List.append_nil] at hrest
        subst hrest
        exact hd
      | cons last rest =>
        refine hway front last ⟨rest, ?_⟩
        rw [← hrest, List.append_assoc, List.singleton_append]
  · rintro ⟨hcause, hlengths, hway⟩
    refine ⟨p.goal, ?_, hway _ p.goal_mem_way⟩
    rw [hcause]
    refine resolveFrom_eq_ok_iff.2 ⟨rfl, hlengths, fun front last hl => hway _ ?_⟩
    exact Path.mem_way.2 ⟨front, (List.prefix_append front [last]).trans hl, rfl⟩

/-- A directory stays one while the places on the way to it stay directories. -/
theorem isDirectory_of_way (h : t.isDirectory p = true)
    (hway : ∀ d ∈ p.way, t.node? d = some .directory → t'.node? d = some .directory) :
    t'.isDirectory p = true := by
  obtain ⟨hcause, hlengths, hd⟩ := isDirectory_iff_way.1 h
  exact isDirectory_iff_way.2 ⟨hcause, hlengths, fun d hm => hway d hm (hd d hm)⟩

theorem resolveFrom_append {names rest : List String} (h : t.resolveFrom p names = .ok q) :
    t.resolveFrom p (names ++ rest) = t.resolveFrom q rest := by
  induction names generalizing p with
  | nil =>
    cases h
    rfl
  | cons name names ih =>
    simp only [List.cons_append, resolveFrom] at h ⊢
    split at h
    · cases h
    · cases h
    · split at h
      · cases h
      · rename_i hl
        rw [if_neg hl]
        exact ih h

/-- Where a name in a directory leads depends on nothing else in the tree. -/
theorem resolve_child (h : t.isDirectory p = true) (name : String) :
    t.resolve (p.child name) =
      match pathCause? (p.child name).text with
      | some cause => .error cause
      | none =>
        if nameLimit < name.utf8ByteSize then .error .nameTooLong else .ok (p.goal.follow name) := by
  obtain ⟨q, hq, hd⟩ := isDirectory_iff.1 h
  obtain rfl := goal_of_resolve hq
  have hfront : t.resolveFrom ⟨p.absolute, []⟩ p.names = .ok p.goal := by
    unfold resolve at hq
    split at hq
    · cases hq
    · exact hq
  unfold resolve
  cases pathCause? (p.child name).text with
  | some cause => rfl
  | none =>
    change t.resolveFrom ⟨p.absolute, []⟩ (p.names ++ [name]) = _
    rw [resolveFrom_append hfront, resolveFrom, hd]
    rfl

/-- A name in a directory leads to that name. -/
theorem resolve_child_eq_ok_iff (h : t.isDirectory p = true) (hn : Path.IsName name) :
    t.resolve (p.child name) = .ok q ↔
      pathCause? (p.child name).text = none ∧ name.utf8ByteSize ≤ nameLimit ∧
        q = p.goal.child name := by
  rw [resolve_child h, Path.follow_of_isName hn]
  cases pathCause? (p.child name).text with
  | some cause => simp
  | none =>
    by_cases hl : nameLimit < name.utf8ByteSize
    · have hnot : ¬name.utf8ByteSize ≤ nameLimit := by omega
      simp [hl, hnot]
    · have hle : name.utf8ByteSize ≤ nameLimit := by omega
      simp [hl, hle, eq_comm]

end Tree
end BackendMigration.File

/-! Paths that are read as they stand. -/
namespace BackendMigration.File

namespace Path

/-- A path without the names that stay where they are. -/
def plain (p : Path) : Path := ⟨p.absolute, p.names.filter (· != ".")⟩

theorem goal_filter (absolute : Bool) (names : List String) :
    goal ⟨absolute, names.filter (· != ".")⟩ = goal ⟨absolute, names⟩ := by
  unfold goal
  dsimp only
  generalize (⟨absolute, []⟩ : Path) = start
  induction names generalizing start with
  | nil => rfl
  | cons name rest ih =>
    rw [List.filter_cons]
    split
    · rw [List.foldl_cons, List.foldl_cons]
      exact ih _
    · rename_i hname
      have hpoint : name = "." := by simpa using hname
      subst hpoint
      exact ih start

@[simp] theorem goal_plain (p : Path) : p.plain.goal = p.goal := goal_filter p.absolute p.names

theorem mem_way_of_mem_way_plain {p q : Path} (h : q ∈ p.plain.way) : q ∈ p.way := by
  obtain ⟨front, hfront, rfl⟩ := mem_way.1 h
  obtain ⟨longer, hlonger, rfl⟩ := List.prefix_filter_iff.1 hfront
  exact mem_way.2 ⟨longer, hlonger, (goal_filter p.absolute longer).symm⟩

/-- Leaving out single points is all that reading a path does to its names. -/
theorem plain_literal {s : String} (h : s ≠ "") : (literal s).plain = ofText s := by
  have hempty : s.isEmpty = false := by simpa using h
  have hpoint : ∀ n : Text, (String.ofList n != ".") = (n != ['.']) := by
    intro n
    rw [Bool.eq_iff_iff, bne_iff_ne, bne_iff_ne, ne_eq, ne_eq, not_iff_not]
    constructor
    · intro e
      exact String.ofList_injective e
    · rintro rfl
      rfl
  have hlast : (if (Text.splitBy (· == '/') s.toList).getLast? == some [] then ["."] else []).filter
      (· != ".") = [] := by
    split <;> rfl
  simp only [plain, literal, ofText, hempty, Bool.false_eq_true, if_false, List.filter_append, hlast,
    List.append_nil, List.filter_map, List.filter_filter, Function.comp_def, hpoint, mk.injEq,
    true_and]
  refine congrArg _ (List.filter_congr fun n _ => ?_)
  rw [Bool.and_comm]

/-- Fewer names between the same separators are a shorter text. -/
theorem intercalate_sublist (sep : Text) {ls ms : List Text} (h : ls.Sublist ms) :
    (sep.intercalate ls).Sublist (sep.intercalate ms) := by
  induction h with
  | slnil => exact List.Sublist.refl _
  | @cons ls ms m hsub ih =>
    cases ms with
    | nil => simp [List.sublist_nil.1 hsub]
    | cons m' ms =>
      rw [List.intercalate_cons_cons]
      exact ih.trans (List.sublist_append_right _ _)
  | @cons_cons ls ms m hsub ih =>
    cases ls with
    | nil =>
      cases ms with
      | nil => exact List.Sublist.refl _
      | cons m' ms =>
        rw [List.intercalate_cons_cons, List.intercalate_singleton]
        simp
    | cons l ls =>
      cases ms with
      | nil => simp at hsub
      | cons m' ms =>
        rw [List.intercalate_cons_cons, List.intercalate_cons_cons]
        exact List.Sublist.append (List.Sublist.refl _) ih

/-- The text of a path is no shorter than without the points, unless nothing is left of it. -/
theorem text_plain_sublist (p : Path) (h : p.plain.text ≠ ".") :
    p.plain.text.toList.Sublist p.text.toList := by
  obtain ⟨absolute, names⟩ := p
  have hnames : (names.filter (· != ".")).Sublist names := List.filter_sublist
  have hjoined := intercalate_sublist ['/'] (hnames.map String.toList)
  have hslash : ("/" : String).toList = ['/'] := rfl
  cases absolute with
  | true => simpa [plain, text, String.toList_intercalate, hslash] using hjoined
  | false =>
    by_cases hnil : names.filter (· != ".") = []
    · exact absurd (by simp [plain, text, hnil]) h
    · have hne : names ≠ [] := by
        rintro rfl
        exact hnil rfl
      simpa [plain, text, hnil, hne, String.toList_intercalate, hslash] using hjoined

end Path

theorem pathCause?_eq_none_of_sublist {a b : String} (h : a.toList.Sublist b.toList)
    (hb : pathCause? b = none) : pathCause? a = none := by
  rw [pathCause?_eq_none_iff] at hb ⊢
  have hsize : a.utf8ByteSize ≤ b.utf8ByteSize := by
    have := String.utf8Len_le_of_sublist h
    rwa [← String.utf8ByteSize_ofList, ← String.utf8ByteSize_ofList, String.ofList_toList,
      String.ofList_toList] at this
  exact ⟨fun c hc => hb.1 c (h.subset hc), by omega⟩

namespace Tree

variable {t : Tree} {p : Path}

theorem isDirectory_plain (h : t.isDirectory p = true) : t.isDirectory p.plain = true := by
  obtain ⟨hcause, hlengths, hway⟩ := isDirectory_iff_way.1 h
  refine isDirectory_iff_way.2 ⟨?_, fun n hn => ?_, fun d hd => ?_⟩
  · by_cases hpoint : p.plain.text = "."
    · rw [hpoint]
      decide
    · exact pathCause?_eq_none_of_sublist (p.text_plain_sublist hpoint) hcause
  · exact hlengths n (List.mem_of_mem_filter hn)
  · exact hway d (Path.mem_way_of_mem_way_plain hd)

/-- A text that is the path of a directory as it stands is the path of one. -/
theorem isDirectory_ofText {s : String} (h : t.isDirectory (.literal s) = true) :
    t.isDirectory (.ofText s) = true := by
  by_cases hs : s = ""
  · subst hs
    refine isDirectory_iff_way.2 ⟨by decide, ?_, ?_⟩
    · decide
    · intro d hd
      obtain ⟨front, hfront, rfl⟩ := Path.mem_way.1 hd
      have hnil : front = [] := List.prefix_nil.1 hfront
      subst hnil
      rfl
  · rw [← Path.plain_literal hs]
    exact isDirectory_plain h

end Tree
end BackendMigration.File
