/-! Asking whether to stop. -/
namespace BackendMigration

/-- The answers to come: `some n` is no `n` more times and yes from then on, `none` is always
no. -/
structure Cancellation where
  remaining : Option Nat
  deriving DecidableEq, Repr

namespace Cancellation

def never : Cancellation := ⟨none⟩

/-- The answer, and the answers after it. -/
def ask : Cancellation → Bool × Cancellation
  | ⟨none⟩ => (false, ⟨none⟩)
  | ⟨some 0⟩ => (true, ⟨some 0⟩)
  | ⟨some (n + 1)⟩ => (false, ⟨some n⟩)

/-- After the first yes every answer is yes. -/
theorem ask_again {c : Cancellation} (h : c.ask.1 = true) : c.ask.2 = c := by
  obtain ⟨_ | _ | n⟩ := c <;> simp_all [ask]

theorem eq_of_ask {c : Cancellation} (h : c.ask.1 = true) : c = ⟨some 0⟩ := by
  obtain ⟨_ | _ | n⟩ := c <;> simp_all [ask]

@[simp] theorem ask_never : never.ask = (false, never) := rfl

end Cancellation
end BackendMigration
