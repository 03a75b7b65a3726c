import BackendMigration.Proofs.Pattern.Matches
import BackendMigration.Recognition.Catalogue
import BackendMigration.Recognition.Scan
import Mathlib.Data.List.Pairwise
import Mathlib.Data.Set.Defs

/-! The choice among overlapping declarations is the one set of candidates that precedence
leaves. -/
namespace BackendMigration

/-- All rules of a registry are known ones. -/
def Registry.Known (registry : Registry) : Prop := ∀ rule ∈ registry.rules, rule ∈ Recognition.catalogue

namespace Recognition
namespace Candidate

/-- A candidate comes before another one: its style is more specific, else its rule is registered
earlier, else it starts earlier. -/
def Precedes (a b : Candidate) : Prop :=
  b.rule.style.specificity < a.rule.style.specificity ∨
    (a.rule.style.specificity = b.rule.style.specificity ∧
      (a.order < b.order ∨ (a.order = b.order ∧ a.found.start < b.found.start)))

end Candidate

/-- A choice of candidates none of which overlap, where each candidate left out gives way to one
that comes before it. -/
structure IsSelection (all : List Candidate) (chosen : Set Candidate) : Prop where
  mem_all : ∀ c ∈ chosen, c ∈ all
  disjoint : ∀ a ∈ chosen, ∀ b ∈ chosen, a ≠ b → a.overlaps b = false
  gives_way : ∀ c ∈ all, c ∉ chosen → ∃ s ∈ chosen, s.overlaps c = true ∧ s.Precedes c

/-! Candidates. -/

variable {registry : Registry} {t : Text} {a b c : Candidate}

theorem mem_candidates : c ∈ candidates registry t ↔
    registry.rules[c.order]? = some c.rule ∧ c.found ∈ c.rule.pattern.allMatches t := by
  simp only [candidates, List.mem_flatMap, List.mem_map, List.mem_zipIdx_iff_getElem?]
  constructor
  · rintro ⟨⟨rule, order⟩, hr, m, hm, rfl⟩
    exact ⟨hr, hm⟩
  · rintro ⟨hr, hm⟩
    exact ⟨(c.rule, c.order), hr, c.found, hm, rfl⟩

/-- No known rule matches an empty text. -/
theorem minLength_pos_of_mem_catalogue {rule : RecognitionRule} (h : rule ∈ catalogue) :
    0 < rule.pattern.minLength := by
  have all : ∀ rule ∈ catalogue, 0 < rule.pattern.minLength := by decide +kernel
  exact all rule h

section Known

variable (hk : registry.Known)
include hk

theorem minLength_pos_of_mem_candidates (h : c ∈ candidates registry t) :
    0 < c.rule.pattern.minLength :=
  minLength_pos_of_mem_catalogue (hk _ (List.mem_of_getElem? (mem_candidates.1 h).1))

theorem start_lt_stop_of_mem_candidates (h : c ∈ candidates registry t) :
    c.found.start < c.found.stop := by
  have hp := minLength_pos_of_mem_candidates hk h
  have := (Pattern.matchesAt_of_mem_allMatches (mem_candidates.1 h).2).minLength_le
  omega

/-- A rule has one match at most at a place. -/
theorem eq_of_order_of_start (ha : a ∈ candidates registry t) (hb : b ∈ candidates registry t)
    (ho : a.order = b.order) (hs : a.found.start = b.found.start) : a = b := by
  have hp := minLength_pos_of_mem_candidates hk ha
  obtain ⟨hra, hma⟩ := mem_candidates.1 ha
  obtain ⟨hrb, hmb⟩ := mem_candidates.1 hb
  have hr : a.rule = b.rule := by rw [ho, hrb] at hra; exact (Option.some.inj hra).symm
  rw [← hr] at hmb
  have apart : (a.rule.pattern.allMatches t).Pairwise fun m n => m.start ≠ n.start := by
    refine (Pattern.pairwise_allMatches hp t).imp_of_mem fun {m n} hm _ hmn => ?_
    have := (Pattern.matchesAt_of_mem_allMatches hm).minLength_le
    omega
  have : Std.Symm fun m n : Match => m.start ≠ n.start := ⟨fun _ _ => Ne.symm⟩
  have hm : a.found = b.found := by
    by_contra hne
    exact apart.forall hma hmb hne hs
  obtain ⟨_, _, _⟩ := a
  obtain ⟨_, _, _⟩ := b
  simp_all

theorem precedes_of_preferred (ha : a ∈ candidates registry t) (hb : b ∈ candidates registry t)
    (hne : a ≠ b) (h : a.preferred b = true) : a.Precedes b := by
  simp only [Candidate.preferred, Bool.or_eq_true, Bool.and_eq_true, decide_eq_true_eq,
    beq_iff_eq] at h
  simp only [Candidate.Precedes]
  rcases h with h | ⟨hs, h | ⟨ho, h⟩⟩
  · exact .inl h
  · exact .inr ⟨hs, .inl h⟩
  · have hne' : a.found.start ≠ b.found.start := fun e => hne (eq_of_order_of_start hk ha hb ho e)
    exact .inr ⟨hs, .inr ⟨ho, by omega⟩⟩

end Known

theorem preferred_trans (a b c : Candidate) (hab : a.preferred b = true)
    (hbc : b.preferred c = true) : a.preferred c = true := by
  simp only [Candidate.preferred, Bool.or_eq_true, Bool.and_eq_true, decide_eq_true_eq,
    beq_iff_eq] at *
  omega

theorem preferred_total (a b : Candidate) : (a.preferred b || b.preferred a) = true := by
  simp only [Candidate.preferred, Bool.or_eq_true, Bool.and_eq_true, decide_eq_true_eq,
    beq_iff_eq]
  omega

theorem earlier_trans (a b c : Candidate) (hab : a.earlier b = true) (hbc : b.earlier c = true) :
    a.earlier c = true := by
  simp only [Candidate.earlier, Bool.or_eq_true, Bool.and_eq_true, decide_eq_true_eq,
    beq_iff_eq] at *
  omega

theorem earlier_total (a b : Candidate) : (a.earlier b || b.earlier a) = true := by
  simp only [Candidate.earlier, Bool.or_eq_true, Bool.and_eq_true, decide_eq_true_eq, beq_iff_eq]
  omega

theorem wellFounded_precedes : WellFounded Candidate.Precedes := by
  -- More specific styles come first, so the rank counts what is missing to the highest one.
  let rank (c : Candidate) : Nat × Nat × Nat :=
    (3 - c.rule.style.specificity, c.order, c.found.start)
  refine Subrelation.wf (r := InvImage WellFoundedRelation.rel rank) (fun {a b} h => ?_)
    (InvImage.wf rank WellFoundedRelation.wf)
  have bound (s : Style) : s.specificity ≤ 3 := by cases s <;> decide
  have ha := bound a.rule.style
  have hb := bound b.rule.style
  rcases h with h | ⟨hs, h⟩
  · exact Prod.Lex.left _ _ (show 3 - a.rule.style.specificity < 3 - b.rule.style.specificity by omega)
  · change Prod.Lex _ _ (3 - a.rule.style.specificity, _) (3 - b.rule.style.specificity, _)
    rw [hs]
    refine Prod.Lex.right _ ?_
    rcases h with h | ⟨ho, h⟩
    · exact Prod.Lex.left _ _ h
    · change Prod.Lex _ _ (a.order, _) (b.order, _)
      rw [ho]
      exact Prod.Lex.right _ h

/-! Keeping what does not overlap. -/

theorem mem_keepDisjoint_of_mem {kept cs : List Candidate} (h : c ∈ kept) :
    c ∈ keepDisjoint kept cs := by
  induction cs generalizing kept with
  | nil => exact h
  | cons a r ih =>
    unfold keepDisjoint
    split
    · exact ih h
    · exact ih (List.mem_cons_of_mem _ h)

/-- What is not kept overlaps something kept before. -/
theorem overlapped_of_not_mem_keepDisjoint {kept cs : List Candidate}
    (hk : ∀ k ∈ kept, ∀ c ∈ cs, k.preferred c = true)
    (hs : cs.Pairwise fun a b => a.preferred b = true) (hc : c ∈ cs)
    (hn : c ∉ keepDisjoint kept cs) :
    ∃ s ∈ keepDisjoint kept cs, s.overlaps c = true ∧ s.preferred c = true := by
  -- `hk` is what the loop keeps up: all that is kept so far is preferred to all that is to come.
  induction cs generalizing kept with
  | nil => simp at hc
  | cons a r ih =>
    obtain ⟨ha, hr⟩ := List.pairwise_cons.1 hs
    simp only [keepDisjoint] at hn ⊢
    split at hn
    · rename_i hany
      rw [if_pos hany]
      rcases List.mem_cons.1 hc with rfl | hc
      · obtain ⟨k, hkm, hko⟩ := List.any_eq_true.1 hany
        refine ⟨k, mem_keepDisjoint_of_mem hkm, ?_, hk k hkm c (List.mem_cons_self ..)⟩
        rwa [Candidate.overlaps_comm]
      · exact ih (fun k hkm b hb => hk k hkm b (List.mem_cons_of_mem _ hb)) hr hc hn
    · rename_i hany
      rw [if_neg hany]
      rcases List.mem_cons.1 hc with rfl | hc
      · exact absurd (mem_keepDisjoint_of_mem (List.mem_cons_self ..)) hn
      · refine ih (fun k hkm b hb => ?_) hr hc hn
        rcases List.mem_cons.1 hkm with rfl | hkm
        · exact ha b hb
        · exact hk k hkm b (List.mem_cons_of_mem _ hb)

/-! The selection. -/

theorem mem_selected : c ∈ selected registry t ↔
    c ∈ keepDisjoint [] ((candidates registry t).mergeSort Candidate.preferred) := by
  rw [selected, List.mem_mergeSort]

theorem mem_candidates_of_mem_selected (h : c ∈ selected registry t) :
    c ∈ candidates registry t := by
  rcases mem_keepDisjoint (mem_selected.1 h) with h | h
  · simp at h
  · exact List.mem_mergeSort.1 h

theorem pairwise_disjoint_selected (registry : Registry) (t : Text) :
    (selected registry t).Pairwise fun a b => a.overlaps b = false := by
  refine List.Pairwise.perm (pairwise_keepDisjoint .nil) (List.mergeSort_perm ..).symm ?_
  intro a b h
  rwa [Candidate.overlaps_comm]

theorem isSelection_selected (hk : registry.Known) (t : Text) :
    IsSelection (candidates registry t) {c | c ∈ selected registry t} where
  mem_all c hc := mem_candidates_of_mem_selected hc
  disjoint a ha b hb hne := by
    have : Std.Symm fun a b : Candidate => a.overlaps b = false :=
      ⟨fun a b h => by rwa [Candidate.overlaps_comm]⟩
    exact (pairwise_disjoint_selected registry t).forall ha hb hne
  gives_way c hc hn := by
    have hsorted := List.pairwise_mergeSort preferred_trans preferred_total (candidates registry t)
    have hn' := fun h => hn (mem_selected.2 h)
    obtain ⟨s, hs, ho, hp⟩ := overlapped_of_not_mem_keepDisjoint (by simp) hsorted
      (List.mem_mergeSort.2 hc) hn'
    have hs := mem_selected.2 hs
    refine ⟨s, hs, ho, precedes_of_preferred hk (mem_candidates_of_mem_selected hs) hc ?_ hp⟩
    rintro rfl
    exact hn hs

/-- A member of one selection is a member of any other, if the two agree on all that comes
before. -/
theorem IsSelection.mem_of_mem {all : List Candidate} {A B : Set Candidate}
    (hA : IsSelection all A) (hB : IsSelection all B)
    (before : ∀ s, s.Precedes c → (s ∈ A ↔ s ∈ B)) (hc : c ∈ A) : c ∈ B := by
  by_contra hn
  obtain ⟨s, hs, ho, hp⟩ := hB.gives_way c (hA.mem_all c hc) hn
  have hne : s ≠ c := fun e => hn (e ▸ hs)
  have := hA.disjoint s ((before s hp).2 hs) c hc hne
  simp [ho] at this

theorem IsSelection.unique {all : List Candidate} {A B : Set Candidate}
    (hA : IsSelection all A) (hB : IsSelection all B) (c : Candidate) : c ∈ A ↔ c ∈ B := by
  induction c using wellFounded_precedes.induction with
  | _ c ih => exact ⟨hA.mem_of_mem hB ih, hB.mem_of_mem hA fun s hs => (ih s hs).symm⟩

/-- Candidates of a selection follow one another. -/
theorem pairwise_selected (hk : registry.Known) (t : Text) :
    (selected registry t).Pairwise fun a b =>
      a.found.start < b.found.start ∧ a.found.stop ≤ b.found.start := by
  have hsorted := List.pairwise_mergeSort earlier_trans earlier_total
    (keepDisjoint [] ((candidates registry t).mergeSort Candidate.preferred))
  refine (hsorted.and (pairwise_disjoint_selected registry t)).imp_of_mem ?_
  rintro a b ha hb ⟨he, ho⟩
  have := start_lt_stop_of_mem_candidates hk (mem_candidates_of_mem_selected ha)
  have := start_lt_stop_of_mem_candidates hk (mem_candidates_of_mem_selected hb)
  simp only [Candidate.earlier, Bool.or_eq_true, Bool.and_eq_true, decide_eq_true_eq,
    beq_iff_eq] at he
  simp only [Candidate.overlaps, Bool.and_eq_false_iff, decide_eq_false_iff_not] at ho
  omega

theorem known_orStandard (hk : registry.Known) : registry.orStandard.Known := by
  unfold Registry.orStandard
  split
  · exact fun rule h => h
  · exact hk

/-- The candidates that count are the only selection, and they and the functions found in a text
follow one another. -/
theorem isSelection_iff_selected (registry : Registry) (hk : registry.Known) (t : Text) :
    (∀ chosen : Set Candidate, IsSelection (candidates registry t) chosen ↔
      ∀ c, c ∈ chosen ↔ c ∈ selected registry t) ∧
    ((selected registry t).Pairwise fun a b => a.found.start < b.found.start) ∧
    ∀ filePath, (scan registry t filePath).Pairwise fun a b =>
      a.span.start < b.span.start ∧ a.span.stop ≤ b.span.start := by
  refine ⟨fun chosen => ⟨fun h c => ?_, fun h => ?_⟩, ?_, fun filePath => ?_⟩
  · exact h.unique (isSelection_selected hk t) c
  · obtain rfl : chosen = {c | c ∈ selected registry t} := funext fun c => propext (h c)
    exact isSelection_selected hk t
  · exact (pairwise_selected hk t).imp And.left
  · refine List.Pairwise.filter _ (List.pairwise_map.2 ?_)
    exact pairwise_selected (known_orStandard hk) t

/-- An exported factory, which rules of two styles match, with the rules backwards. -/
theorem isSelection_selected_reverse_catalogue :
    let registry : Registry := ⟨catalogue.reverse⟩
    let t := "export const pay = createHttpFunction('pay', payHandler);".toList
    registry.Known ∧ IsSelection (candidates registry t) {c | c ∈ selected registry t} := by
  have hk : (⟨catalogue.reverse⟩ : Registry).Known := fun rule h => List.mem_reverse.1 h
  exact ⟨hk, ((isSelection_iff_selected _ hk _).1 _).2 fun c => Iff.rfl⟩

end Recognition
end BackendMigration
