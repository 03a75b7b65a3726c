import BackendMigration.Text.Blank
import BackendMigration.Text.Integer
import BackendMigration.Text.Word

/-! Classes of characters, as patterns name them. -/
namespace BackendMigration

/-- A class of characters. -/
inductive CharClass where
  | only (c : Char)
  | between (low high : Char)
  | word
  | blank
  | decimal
  | union (left right : CharClass)
  | except (excluded : CharClass)
  deriving DecidableEq, Repr

namespace CharClass

/-- Membership in a class. -/
def holds : CharClass → Char → Bool
  | only a, c => c == a
  | between low high, c => low ≤ c && c ≤ high
  | word, c => Text.isWord c
  | blank, c => Text.isBlank c
  | decimal, c => Text.isDecimal c
  | union l r, c => l.holds c || r.holds c
  | except e, c => !e.holds c

/-- A class that holds of nothing. -/
def never : CharClass := between (Char.ofNat 1) (Char.ofNat 0)

/-- The characters of a text. -/
def oneOf (s : String) : CharClass := s.toList.foldr (fun c k => union (only c) k) never

/-- All characters but those of a text. -/
def noneOf (s : String) : CharClass := except (oneOf s)

/-- A letter in either case, with the letters of other scripts that fold to it. -/
def anyCase (c : Char) : CharClass :=
  let plain := union (only c.toLower) (only c.toUpper)
  match c.toLower with
  | 'i' => union plain (union (only (Char.ofNat 0x130)) (only (Char.ofNat 0x131)))
  | 's' => union plain (only (Char.ofNat 0x17F))
  | 'k' => union plain (only (Char.ofNat 0x212A))
  | _ => plain

@[simp] theorem holds_only (a c : Char) : (only a).holds c = (c == a) := rfl

@[simp] theorem holds_union (l r : CharClass) (c : Char) :
    (union l r).holds c = (l.holds c || r.holds c) := rfl

@[simp] theorem holds_except (e : CharClass) (c : Char) : (except e).holds c = !e.holds c := rfl

theorem holds_never (c : Char) : never.holds c = false := by
  simp only [never, holds, Bool.and_eq_false_iff, decide_eq_false_iff_not]
  by_cases h : Char.ofNat 1 ≤ c
  · right
    intro h'
    have h1 : (1 : Nat) ≤ c.toNat := h
    have h2 : c.toNat ≤ 0 := h'
    omega
  · exact .inl h

/-- The class of a text's characters holds of exactly these. -/
theorem holds_oneOf (s : String) (c : Char) : (oneOf s).holds c = s.toList.contains c := by
  unfold oneOf
  induction s.toList with
  | nil => simpa using holds_never c
  | cons a r ih => simp [ih, Bool.beq_eq_decide_eq]

end CharClass
end BackendMigration
