import BackendMigration.Keyed

/-! Settings from the environment. -/
namespace BackendMigration

/-- The values of environment variables. -/
abbrev Environment := Keyed String

/-- A text that is there and not empty. -/
def given? (s : Option String) : Option String := s.filter fun t => !t.isEmpty

/-- The value of the first variable, or of the second one if the first is not there or empty. -/
def Environment.either? (e : Environment) (first second : String) : Option String :=
  match given? (Keyed.get? first e) with
  | some v => some v
  | none => Keyed.get? second e

@[simp] theorem given?_none : given? none = none := rfl

theorem given?_eq_some {s : Option String} {t : String} :
    given? s = some t ↔ s = some t ∧ t.isEmpty = false := by
  cases s with
  | none => simp
  | some u =>
    simp only [given?, Option.filter_some]
    by_cases h : u.isEmpty = true
    · simp only [h, Bool.not_true, Bool.false_eq_true, if_false, reduceCtorEq, Option.some.injEq,
        false_iff, not_and, Bool.not_eq_false]
      rintro rfl
      exact h
    · simp only [Bool.not_eq_true] at h
      simp only [h, Bool.not_false, if_true, Option.some.injEq]
      constructor
      · rintro rfl
        exact ⟨rfl, h⟩
      · exact fun h => h.1

end BackendMigration
