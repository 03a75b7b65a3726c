import BackendMigration.Recognition.Registry

/-! Choosing among overlapping matches of different rules. -/
namespace BackendMigration.Recognition

/-- A match of a rule, and the rule's position in its registry. -/
structure Candidate where
  found : Match
  rule : RecognitionRule
  order : Nat
  deriving DecidableEq, Repr

namespace Candidate

/-- Two candidates share text. -/
def overlaps (a b : Candidate) : Bool :=
  a.found.start < b.found.stop && b.found.start < a.found.stop

/-- The order of preference: the more specific style, then the earlier rule, then the earlier
place. -/
def preferred (a b : Candidate) : Bool :=
  let s := a.rule.style.specificity
  let t := b.rule.style.specificity
  t < s || (s == t && (a.order < b.order ||
    (a.order == b.order && a.found.start ≤ b.found.start)))

/-- The order in the text. -/
def earlier (a b : Candidate) : Bool :=
  a.found.start < b.found.start || (a.found.start == b.found.start && a.order ≤ b.order)

theorem overlaps_comm (a b : Candidate) : a.overlaps b = b.overlaps a := by
  simp only [overlaps, Bool.and_comm]

end Candidate

/-- All matches of all rules. -/
def candidates (registry : Registry) (t : Text) : List Candidate :=
  registry.rules.zipIdx.flatMap fun (rule, order) =>
    (rule.pattern.allMatches t).map fun m => ⟨m, rule, order⟩

/-- Keep each candidate that overlaps none kept before. -/
def keepDisjoint (kept : List Candidate) : List Candidate → List Candidate
  | [] => kept
  | c :: r => if kept.any c.overlaps then keepDisjoint kept r else keepDisjoint (c :: kept) r

/-- The candidates that count, in the order of the text. -/
def selected (registry : Registry) (t : Text) : List Candidate :=
  (keepDisjoint [] ((candidates registry t).mergeSort Candidate.preferred)).mergeSort
    Candidate.earlier

/-- What is kept once stays kept, and the rest comes from the list. -/
theorem mem_keepDisjoint {kept cs : List Candidate} {c : Candidate}
    (h : c ∈ keepDisjoint kept cs) : c ∈ kept ∨ c ∈ cs := by
  induction cs generalizing kept with
  | nil => exact .inl h
  | cons a r ih =>
    unfold keepDisjoint at h
    split at h
    · rcases ih h with h | h
      · exact .inl h
      · exact .inr (List.mem_cons_of_mem _ h)
    · rcases ih h with h | h
      · rcases List.mem_cons.1 h with rfl | h
        · exact .inr (List.mem_cons_self ..)
        · exact .inl h
      · exact .inr (List.mem_cons_of_mem _ h)

/-- Candidates kept do not overlap. -/
theorem pairwise_keepDisjoint {kept cs : List Candidate}
    (h : kept.Pairwise fun a b => a.overlaps b = false) :
    (keepDisjoint kept cs).Pairwise fun a b => a.overlaps b = false := by
  induction cs generalizing kept with
  | nil => exact h
  | cons a r ih =>
    unfold keepDisjoint
    split
    · exact ih h
    · rename_i hn
      refine ih (List.pairwise_cons.2 ⟨fun b hb => ?_, h⟩)
      simp only [List.any_eq_true, not_exists, not_and, Bool.not_eq_true] at hn
      exact hn b hb

end BackendMigration.Recognition
