/-! Double-precision binary numbers as exact values, and rounding to them. -/
namespace BackendMigration

/-- A double-precision number. A finite one is `mantissa * 2 ^ exponent`. -/
inductive Double where
  | finite (negative : Bool) (mantissa : Nat) (exponent : Int)
  | infinite (negative : Bool)
  | nan
  deriving DecidableEq, Repr

namespace Double

/-- The exponent of the smallest numbers. -/
def minExponent : Int := -1074

/-- The exponent of the largest finite numbers. -/
def maxExponent : Int := 971

/-- Zero with a sign. -/
def zero (negative : Bool) : Double := finite negative 0 minExponent

/-- The nearest natural number to a quotient, the even one of two. -/
def roundHalfEven (num den : Nat) : Nat :=
  let q := num / den
  let r := num % den
  if 2 * r < den then q
  else if den < 2 * r then q + 1
  else q + q % 2

/-- The number `num / den * base ^ (-e)` as a quotient. -/
def scale (base num den : Nat) (e : Int) : Nat × Nat :=
  if 0 ≤ e then (num, den * Nat.pow base e.toNat) else (num * Nat.pow base (-e).toNat, den)

/-- The binary exponent of a positive quotient: the greatest power of two that is not above it. -/
def binaryExponent (num den : Nat) : Int :=
  let e : Int := (num.log2 : Int) - (den.log2 : Int)
  let (n, d) := scale 2 num den e
  if d ≤ n then e else e - 1

/-- The double nearest to a quotient with a sign, the even one of two. -/
def ofRatio (negative : Bool) (num den : Nat) : Double :=
  if num = 0 then zero negative
  else
    let e := max (binaryExponent num den - 52) minExponent
    let (n, d) := scale 2 num den e
    let m := roundHalfEven n d
    let (m, e) := if m = Nat.pow 2 53 then (Nat.pow 2 52, e + 1) else (m, e)
    if maxExponent < e then infinite negative else finite negative m e

/-- The double nearest to an integer. -/
def ofInt (n : Int) : Double := ofRatio (n < 0) n.natAbs 1

/-- The absolute value of a finite number as a quotient. -/
def ratio? : Double → Option (Nat × Nat)
  | finite _ m e => some (if 0 ≤ e then (m * Nat.pow 2 e.toNat, 1) else (m, Nat.pow 2 (-e).toNat))
  | _ => none

def isNegative : Double → Bool
  | finite s _ _ => s
  | infinite s => s
  | nan => false

/-- A zero of either sign. -/
def isZero : Double → Bool
  | finite _ m _ => m == 0
  | _ => false

/-- The integer part of a finite number, toward zero. -/
def truncate? (x : Double) : Option Int :=
  x.ratio?.map fun (n, d) => if x.isNegative then -((n / d : Nat) : Int) else ((n / d : Nat) : Int)

/-- The integer that a number equals. -/
def toInt? (x : Double) : Option Int :=
  match x.ratio? with
  | some (n, d) =>
    if n % d = 0 then some (if x.isNegative then -((n / d : Nat) : Int) else ((n / d : Nat) : Int))
    else none
  | none => none

/-- The product of two numbers of which neither is special, rounded. -/
def mulFinite (x y : Double) : Double :=
  match x.ratio?, y.ratio? with
  | some (a, b), some (c, d) => ofRatio (x.isNegative != y.isNegative) (a * c) (b * d)
  | _, _ => nan

theorem ofRatio_zero (s : Bool) (den : Nat) : ofRatio s 0 den = zero s := by simp [ofRatio]

/-- Rounding a quotient stays within half a unit of it. -/
theorem roundHalfEven_error {num den : Nat} (h : 0 < den) :
    2 * num ≤ 2 * (den * roundHalfEven num den) + den ∧
      2 * (den * roundHalfEven num den) ≤ 2 * num + den := by
  have hq := Nat.div_add_mod num den
  have hr := Nat.mod_lt num h
  have h2 : num / den % 2 = 0 ∨ num / den % 2 = 1 := by omega
  unfold roundHalfEven
  dsimp only
  split
  · constructor <;> omega
  · split
    · simp only [Nat.mul_add]; constructor <;> omega
    · rcases h2 with h2 | h2 <;> simp only [h2, Nat.mul_add] <;> constructor <;> omega

end Double
end BackendMigration
