import BackendMigration.Decimal.Double

/-! The shortest decimal that reads back as a double. -/
namespace BackendMigration.Decimal

/-- A positive decimal number: `digits * 10 ^ exponent`. -/
structure Scaled where
  digits : Nat
  exponent : Int
  deriving DecidableEq, Repr

/-- The double nearest to a decimal number with a sign. -/
def Scaled.toDouble (negative : Bool) (x : Scaled) : Double :=
  if 0 ≤ x.exponent then .ofRatio negative (x.digits * Nat.pow 10 x.exponent.toNat) 1
  else .ofRatio negative x.digits (Nat.pow 10 (-x.exponent).toNat)

/-- The number of decimal digits of a natural number; zero has one. -/
def digitCount (n : Nat) : Nat := (Nat.toDigits 10 n).length

/-- The greatest `k` with `10 ^ k` not above a positive quotient. -/
def exponentOf (num den : Nat) : Int :=
  let e : Int := (digitCount num : Int) - (digitCount den : Int)
  let (n, d) := Double.scale 10 num den e
  if d ≤ n then e else e - 1

/-- The decimals with `count` digits next to a quotient, below or equal and above. -/
def neighbours (num den count : Nat) : Scaled × Scaled :=
  let e := exponentOf num den - (count : Int) + 1
  let (n, d) := Double.scale 10 num den e
  (⟨n / d, e⟩, ⟨n / d + 1, e⟩)

/-- The nearer to a quotient of its neighbours that read back as `x`; of two equally near the one
that ends in an even digit. -/
def fitting? (x : Double) (num den count : Nat) : Option Scaled :=
  let (low, high) := neighbours num den count
  let (n, d) := Double.scale 10 num den low.exponent
  let lowFits := low.toDouble x.isNegative == x
  let highFits := high.toDouble x.isNegative == x
  let lowNearer := 2 * (n % d) < d || (2 * (n % d) == d && low.digits % 2 == 0)
  if lowFits && (!highFits || lowNearer) then some low
  else if highFits then some high
  else none

/-- The decimal of the fewest digits that reads back as a finite number other than zero. -/
def shortest? (x : Double) : Option Scaled :=
  match x.ratio? with
  | some (num, den) => (List.range 17).findSome? fun i => fitting? x num den (i + 1)
  | none => none

/-- What is chosen reads back. -/
theorem toDouble_of_fitting {x : Double} {num den count : Nat} {s : Scaled}
    (h : fitting? x num den count = some s) : s.toDouble x.isNegative = x := by
  unfold fitting? at h
  split at h
  rename_i low high _
  split at h
  rename_i n d _
  dsimp only at h
  split at h
  · rename_i hl
    cases h
    simp only [Bool.and_eq_true, beq_iff_eq] at hl
    exact hl.1
  · split at h
    · rename_i hh
      cases h
      simpa using hh
    · cases h

end BackendMigration.Decimal
