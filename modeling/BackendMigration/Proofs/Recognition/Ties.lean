import BackendMigration.Proofs.Recognition.Selection

/-! The order of a registry decides between equally specific rules only. -/
namespace BackendMigration

open Recognition

namespace Registry

/-- Two registries hold the same rules, in whatever order. -/
def SameRules (registry registry' : Registry) : Prop :=
  ∀ rule, rule ∈ registry.rules ↔ rule ∈ registry'.rules

/-- Matches of different rules that share text are of different specificity. -/
def TieFree (registry : Registry) (t : Text) : Prop :=
  ∀ a ∈ candidates registry t, ∀ b ∈ candidates registry t, a.overlaps b = true →
    a.rule.style.specificity = b.rule.style.specificity → a.rule = b.rule

variable {registry registry' : Registry} {t : Text} {c : Candidate}

theorem SameRules.symm (same : registry.SameRules registry') : registry'.SameRules registry :=
  fun rule => (same rule).symm

theorem SameRules.known (same : registry.SameRules registry') (hk : registry.Known) :
    registry'.Known :=
  fun rule h => hk rule ((same rule).2 h)

/-- Each match of the one registry is one of the other, at some position of it. -/
theorem SameRules.exists_mem_candidates (same : registry.SameRules registry')
    (hc : c ∈ candidates registry t) :
    ∃ order, { c with order := order } ∈ candidates registry' t := by
  obtain ⟨hrule, hfound⟩ := mem_candidates.1 hc
  obtain ⟨order, horder⟩ := List.mem_iff_getElem?.1 ((same _).1 (List.mem_of_getElem? hrule))
  exact ⟨order, mem_candidates.2 ⟨horder, hfound⟩⟩

theorem SameRules.tieFree (same : registry.SameRules registry') (h : registry.TieFree t) :
    registry'.TieFree t := by
  intro a ha b hb ho hs
  obtain ⟨order, ha⟩ := same.symm.exists_mem_candidates ha
  obtain ⟨order', hb⟩ := same.symm.exists_mem_candidates hb
  exact h { a with order := order } ha { b with order := order' } hb ho hs

/-- Two registries of the same rules are both empty or neither of them is. -/
theorem SameRules.orStandard (same : registry.SameRules registry') :
    registry.orStandard.SameRules registry'.orStandard := by
  have hempty : registry.rules = [] ↔ registry'.rules = [] := by
    simp only [List.eq_nil_iff_forall_not_mem, same _]
  unfold Registry.orStandard
  simp only [List.isEmpty_iff, hempty]
  split
  · exact fun _ => Iff.rfl
  · exact same

theorem TieFree.orStandard_of_ne_nil (h : registry.TieFree t) (hne : registry.rules ≠ []) :
    registry.orStandard.TieFree t := by
  have : registry.orStandard = registry := if_neg (by simpa using hne)
  rwa [this]

end Registry

namespace Recognition

variable {registry registry' : Registry} {t : Text} {a b c : Candidate}

/-- Two overlapping matches of one rule are one match. -/
theorem found_eq_of_overlaps (hk : registry.Known) (ha : a ∈ candidates registry t)
    (hb : b ∈ candidates registry t) (hrule : a.rule = b.rule) (ho : a.overlaps b = true) :
    a.found = b.found := by
  have apart := Pattern.pairwise_allMatches (minLength_pos_of_mem_candidates hk ha) t
  have : Std.Symm fun m n : Match => m.stop ≤ n.start ∨ n.stop ≤ m.start := ⟨fun _ _ => Or.symm⟩
  have either : (a.rule.pattern.allMatches t).Pairwise fun m n =>
      m.stop ≤ n.start ∨ n.stop ≤ m.start := apart.imp Or.inl
  have hmb := (mem_candidates.1 hb).2
  rw [← hrule] at hmb
  by_contra hne
  have := either.forall (mem_candidates.1 ha).2 hmb hne
  simp only [Candidate.overlaps, Bool.and_eq_true, decide_eq_true_eq] at ho
  omega

/-- What counts under one registry counts under another one of the same rules, at some position
of it. -/
theorem exists_mem_selected (hk : registry.Known) (same : registry.SameRules registry')
    (free : registry.TieFree t) (hc : c ∈ selected registry t) :
    ∃ order, { c with order := order } ∈ selected registry' t := by
  -- The induction goes from the most specific style down, in both registries at a time.
  induction hn : 3 - c.rule.style.specificity using Nat.strongRecOn
    generalizing registry registry' c with
  | _ n ih =>
    have hk' := same.known hk
    have hcand := mem_candidates_of_mem_selected hc
    obtain ⟨order, hmoved⟩ := same.exists_mem_candidates hcand
    by_cases hkept : { c with order := order } ∈ selected registry' t
    · exact ⟨order, hkept⟩
    obtain ⟨s, hs, ho, hp⟩ := (isSelection_selected hk' t).gives_way _ hmoved hkept
    have hscand := mem_candidates_of_mem_selected hs
    rcases hp with hlt | ⟨heq, -⟩
    · -- What displaces the match is more specific, so it counts under both registries.
      exfalso
      have hlt : c.rule.style.specificity < s.rule.style.specificity := hlt
      have hbound : s.rule.style.specificity ≤ 3 := by cases s.rule.style <;> decide
      obtain ⟨order', hs'⟩ := ih _ (by omega) hk' same.symm (same.tieFree free) hs rfl
      have ho' : ({ s with order := order' } : Candidate).overlaps c = true := ho
      have hne : ({ s with order := order' } : Candidate) ≠ c := by
        intro e
        have := congrArg (·.rule.style.specificity) e
        simp only at this
        omega
      have hapart := (isSelection_selected hk t).disjoint _ hs' c hc hne
      rw [ho'] at hapart
      cases hapart
    · -- Equally specific, it is a match of the same rule and therefore the same match.
      have hrule := same.tieFree free s hscand _ hmoved ho heq
      have hfound := found_eq_of_overlaps hk' hscand hmoved hrule ho
      dsimp only at hrule hfound
      refine ⟨s.order, ?_⟩
      rw [← hfound, ← hrule]
      exact hs

/-- The matches that count and their rules, in the order of the text. -/
def declarations (registry : Registry) (t : Text) : List (Match × RecognitionRule) :=
  (selected registry t).map fun c => (c.found, c.rule)

theorem pairwise_declarations (hk : registry.Known) (t : Text) :
    (declarations registry t).Pairwise fun p q => p.1.start < q.1.start :=
  List.pairwise_map.2 ((pairwise_selected hk t).imp And.left)

theorem mem_declarations_of_mem (hk : registry.Known) (same : registry.SameRules registry')
    (free : registry.TieFree t) {p : Match × RecognitionRule} (h : p ∈ declarations registry t) :
    p ∈ declarations registry' t := by
  obtain ⟨c, hc, rfl⟩ := List.mem_map.1 h
  obtain ⟨order, hmoved⟩ := exists_mem_selected hk same free hc
  exact List.mem_map.2 ⟨_, hmoved, rfl⟩

/-- The declarations that count are the same ones in the same order, whatever the order of the
rules. -/
theorem declarations_eq (hk : registry.Known) (same : registry.SameRules registry')
    (free : registry.TieFree t) : declarations registry t = declarations registry' t := by
  have hsorted := pairwise_declarations hk t
  have hsorted' := pairwise_declarations (same.known hk) t
  have hperm : (declarations registry t).Perm (declarations registry' t) := by
    rw [List.perm_ext_iff_of_nodup (hsorted.imp fun h e => by simp [e] at h)
      (hsorted'.imp fun h e => by simp [e] at h)]
    intro p
    constructor
    · exact mem_declarations_of_mem hk same free
    · exact mem_declarations_of_mem (same.known hk) same.symm (same.tieFree free)
  apply hperm.eq_of_pairwise _ hsorted hsorted'
  intro p q _ _ hpq hqp
  omega

theorem isCallBody_congr (same : registry.SameRules registry') (t : Text) (m : Match) :
    isCallBody registry t m = isCallBody registry' t m := by
  unfold isCallBody
  dsimp only
  split
  · rfl
  · rw [Bool.eq_iff_iff]
    simp only [List.all_eq_true, same _]

/-- A record says nothing of the position of its rule. -/
theorem record_eq (same : registry.SameRules registry') (filePath : String) (c : Candidate) :
    c.record registry t filePath = Candidate.record registry' t filePath ⟨c.found, c.rule, 0⟩ := by
  unfold Candidate.record locateBody
  simp only [isCallBody_congr same]

theorem map_record_selected (same : registry.SameRules registry') (filePath : String) :
    (selected registry t).map (Candidate.record registry t filePath) =
      (declarations registry t).map fun p =>
        Candidate.record registry' t filePath ⟨p.1, p.2, 0⟩ := by
  rw [declarations, List.map_map]
  exact List.map_congr_left fun c _ => record_eq same filePath c

/-- Registries of the same rules find the same functions in a text, in the same order and with the
same bodies, unless two equally specific rules match overlapping parts of it. -/
theorem scan_eq_of_sameRules (registry registry' : Registry) (hk : registry.Known)
    (same : registry.SameRules registry') (t : Text) (free : registry.TieFree t)
    (filePath : String) : scan registry t filePath = scan registry' t filePath := by
  by_cases hne : registry.rules = []
  · have hne' : registry'.rules = [] :=
      List.eq_nil_iff_forall_not_mem.2 fun rule h => by simpa [hne] using (same rule).2 h
    simp [scan, Registry.orStandard, hne, hne']
  · have hsame := same.orStandard
    have hdeclared := declarations_eq (known_orStandard hk) hsame (free.orStandard_of_ne_nil hne)
    unfold scan
    dsimp only
    rw [map_record_selected hsame, hdeclared, map_record_selected (fun _ => Iff.rfl)]

/-- An exported factory, which rules of two styles match, with the rules forwards and backwards. -/
theorem scan_catalogue_eq_scan_reverse :
    let t := "export const pay = createHttpFunction('pay', payHandler);".toList
    Registry.TieFree ⟨catalogue⟩ t ∧
      (∃ a ∈ candidates ⟨catalogue⟩ t, ∃ b ∈ candidates ⟨catalogue⟩ t,
        a.rule ≠ b.rule ∧ a.overlaps b = true) ∧
      scan ⟨catalogue⟩ t "index.js" = scan ⟨catalogue.reverse⟩ t "index.js" := by
  intro t
  have free : Registry.TieFree ⟨catalogue⟩ t := by unfold Registry.TieFree; decide +kernel
  have shared : ∃ a ∈ candidates ⟨catalogue⟩ t, ∃ b ∈ candidates ⟨catalogue⟩ t,
      a.rule ≠ b.rule ∧ a.overlaps b = true := by decide +kernel
  exact ⟨free, shared, scan_eq_of_sameRules _ _ (fun _ h => h)
    (fun _ => List.mem_reverse.symm) t free "index.js"⟩

end Recognition
end BackendMigration
