import BackendMigration.Document.Identity
import BackendMigration.Proofs.Document.Entries

/-! Under which of its names the id of a document is stored, and what becomes of the values that the
document has under them. -/
namespace BackendMigration.Document

/-- The document has a value under the name, and one that does not count as no. -/
def IsTaken (entries : Entries) (name : String) : Prop :=
  ∃ value, entries.get? name = some value ∧ value.isFalsy = false

/-- The first of the names under which the document has no value at all. -/
def firstAbsent? (entries : Entries) : Option String :=
  identityFields.find? fun name => (entries.get? name).isNone

/-- The id is stored under the first name that is not taken, and nothing else changes. -/
structure Stores (entries : Entries) (id : String) (field : Option String) (stored : Entries) : Prop where
  first : ∀ name, field = some name → ∃ before after, identityFields = before ++ name :: after ∧
    (∀ b ∈ before, IsTaken entries b) ∧ ¬IsTaken entries name
  holds : ∀ name, field = some name → stored.get? name = some (.text id)
  others : ∀ name, field ≠ some name → stored.get? name = entries.get? name
  none_iff : field = none ↔ ∀ name ∈ identityFields, IsTaken entries name
  unchanged : field = none → stored = entries
  /-- The name is the first one without a value exactly if it has none, not even one that counts as no. -/
  absent_iff : field = firstAbsent? entries ↔ ∀ name, field = some name → entries.get? name = none
  /-- A value that counts as no is lost where it stands in the way of the id. -/
  keeps_iff : (∀ name value, entries.get? name = some value → stored.get? name = some value) ↔
    ∀ name, field = some name → entries.get? name = none ∨ entries.get? name = some (.text id)

variable {entries : Entries} {name : String}

theorem isFree_eq_false_iff : isFree entries name = false ↔ IsTaken entries name := by
  unfold isFree IsTaken
  cases entries.get? name with
  | none => simp
  | some value => simp

theorem isFree_eq_true_iff : isFree entries name = true ↔ ¬IsTaken entries name := by
  rw [← isFree_eq_false_iff, Bool.not_eq_false]

theorem IsTaken.isNone_eq_false (h : IsTaken entries name) : (entries.get? name).isNone = false := by
  obtain ⟨value, hvalue, -⟩ := h
  rw [hvalue]
  rfl

theorem find?_isFree_eq_some_iff : identityFields.find? (isFree entries) = some name ↔
    ∃ before after, identityFields = before ++ name :: after ∧ (∀ b ∈ before, IsTaken entries b) ∧
      ¬IsTaken entries name := by
  rw [List.find?_eq_some_iff_append, isFree_eq_true_iff]
  simp only [Bool.not_eq_eq_eq_not, Bool.not_true, isFree_eq_false_iff]
  constructor
  · rintro ⟨hname, before, after, hsplit, hbefore⟩
    exact ⟨before, after, hsplit, hbefore, hname⟩
  · rintro ⟨before, after, hsplit, hbefore, hname⟩
    exact ⟨hname, before, after, hsplit, hbefore⟩

theorem find?_isFree_eq_none_iff : identityFields.find? (isFree entries) = none ↔
    ∀ name ∈ identityFields, IsTaken entries name := by
  simp only [List.find?_eq_none, Bool.not_eq_true, isFree_eq_false_iff]

/-- Before the first name that is not taken every name has a value. -/
theorem find?_isFree_eq_firstAbsent?_iff : identityFields.find? (isFree entries) = firstAbsent? entries ↔
    ∀ name, identityFields.find? (isFree entries) = some name → entries.get? name = none := by
  constructor
  · intro h name hname
    rw [h] at hname
    simpa using List.find?_some hname
  · intro h
    cases hfield : identityFields.find? (isFree entries) with
    | none =>
      have htaken := find?_isFree_eq_none_iff.1 hfield
      refine (List.find?_eq_none.2 fun name hname => ?_).symm
      rw [(htaken name hname).isNone_eq_false]
      exact Bool.false_ne_true
    | some name =>
      obtain ⟨before, after, hsplit, hbefore, -⟩ := find?_isFree_eq_some_iff.1 hfield
      refine (List.find?_eq_some_iff_append.2 ⟨?_, before, after, hsplit, fun b hb => ?_⟩).symm
      · rw [h name hfield]
        rfl
      · rw [(hbefore b hb).isNone_eq_false]
        rfl

theorem assignIdentity_fst (entries : Entries) (id : String) :
    (assignIdentity entries id).1 = identityFields.find? (isFree entries) := by
  unfold assignIdentity
  split
  · rename_i name hname
    exact hname.symm
  · rename_i hnone
    exact hnone.symm

theorem get?_assignIdentity (entries : Entries) (id name : String) :
    (assignIdentity entries id).2.get? name =
      if identityFields.find? (isFree entries) = some name then some (.text id)
      else entries.get? name := by
  unfold assignIdentity
  cases identityFields.find? (isFree entries) with
  | none => rfl
  | some field => simp only [Entries.get?_set, Option.some.injEq, eq_comm]

theorem stores_assignIdentity (entries : Entries) (id : String) :
    Stores entries id (assignIdentity entries id).1 (assignIdentity entries id).2 := by
  rw [assignIdentity_fst]
  constructor
  · intro name hname
    exact find?_isFree_eq_some_iff.1 hname
  · intro name hname
    rw [get?_assignIdentity, if_pos hname]
  · intro name hname
    rw [get?_assignIdentity, if_neg hname]
  · exact find?_isFree_eq_none_iff
  · intro hnone
    rw [assignIdentity, hnone]
  · exact find?_isFree_eq_firstAbsent?_iff
  · constructor
    · intro h name hname
      cases hvalue : entries.get? name with
      | none => exact .inl rfl
      | some value =>
        have hkept := h name value hvalue
        rw [get?_assignIdentity, if_pos hname] at hkept
        exact .inr hkept.symm
    · intro h name value hvalue
      rw [get?_assignIdentity]
      split
      · rename_i hname
        rcases h name hname with habsent | hsame
        · rw [habsent] at hvalue
          cases hvalue
        · rw [← hsame, hvalue]
      · exact hvalue

end BackendMigration.Document
