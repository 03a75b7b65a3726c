import BackendMigration.Decimal.Double
import BackendMigration.Keyed

/-! JSON values. Objects keep the order of their fields. -/
namespace BackendMigration

/-- A JSON value; integers are exact. -/
inductive Json where
  | null
  | bool (b : Bool)
  | int (n : Int)
  | float (x : Double)
  | str (s : String)
  | arr (items : List Json)
  | obj (fields : List (String × Json))
  deriving Repr, Inhabited

namespace Json

/-- The value under a key of an object. -/
def field? (key : String) : Json → Option Json
  | obj fields => Keyed.get? key fields
  | _ => none

/-- An object from pairs; of two values for one key the later counts, at the place of the first. -/
def ofPairs (pairs : List (String × Json)) : Json := obj (Keyed.ofPairs pairs)

/-- The text that a value is. -/
def text? : Json → Option String
  | str s => some s
  | _ => none

/-- A text, or null. -/
def ofText? : Option String → Json
  | some s => str s
  | none => null

mutual

/-- Two values are the same. -/
def same : Json → Json → Bool
  | null, null => true
  | bool a, bool b => a == b
  | int a, int b => a == b
  | float a, float b => a == b
  | str a, str b => a == b
  | arr xs, arr ys => sameItems xs ys
  | obj xs, obj ys => sameFields xs ys
  | _, _ => false

def sameItems : List Json → List Json → Bool
  | [], [] => true
  | x :: xs, y :: ys => same x y && sameItems xs ys
  | _, _ => false

def sameFields : List (String × Json) → List (String × Json) → Bool
  | [], [] => true
  | (k, x) :: xs, (l, y) :: ys => k == l && same x y && sameFields xs ys
  | _, _ => false

end

mutual

theorem same_iff : ∀ x y : Json, same x y = true ↔ x = y
  | null, y => by cases y <;> simp [same]
  | bool a, y => by cases y <;> simp [same]
  | int a, y => by cases y <;> simp [same]
  | float a, y => by cases y <;> simp [same]
  | str a, y => by cases y <;> simp [same]
  | arr xs, y => by cases y <;> simp [same, sameItems_iff xs]
  | obj xs, y => by cases y <;> simp [same, sameFields_iff xs]

theorem sameItems_iff : ∀ xs ys : List Json, sameItems xs ys = true ↔ xs = ys
  | [], ys => by cases ys <;> simp [sameItems]
  | x :: xs, ys => by cases ys <;> simp [sameItems, same_iff x, sameItems_iff xs]

theorem sameFields_iff : ∀ xs ys : List (String × Json), sameFields xs ys = true ↔ xs = ys
  | [], ys => by cases ys <;> simp [sameFields]
  | (k, x) :: xs, ys => by
    cases ys <;> simp [sameFields, same_iff x, sameFields_iff xs, Prod.ext_iff, and_assoc]

end

instance : DecidableEq Json := fun x y => decidable_of_iff _ (same_iff x y)

end Json
end BackendMigration
