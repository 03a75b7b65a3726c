import BackendMigration.Decimal.Notation
import BackendMigration.Text.Integer

/-! Decimal numbers as they are written: zeros at the end of a fraction count. -/
namespace BackendMigration.Decimal

/-- A decimal number. A finite one is `digits * 10 ^ exponent`. -/
inductive Number where
  | finite (negative : Bool) (digits : Nat) (exponent : Int)
  | infinite (negative : Bool)
  /-- No number, with digits of its own. A signaling one has no use but to be noticed. -/
  | nan (negative signaling : Bool) (payload : Nat)
  deriving DecidableEq, Repr

namespace Number

/-- The ASCII form of a text: digits of every script become those of ASCII. -/
def asciiForm? (t : Text) : Option (List Char) :=
  t.mapM fun c =>
    if 0 < c.toNat ∧ c.toNat < 128 then some c
    else (Text.digitValue? c).map Nat.digitChar

/-- The ASCII form without white space around it and without underscores. -/
def plainForm? (t : Text) : Option (List Char) :=
  asciiForm? ((Text.strip t).filter (· != '_'))

/-- What stands behind the name of a special value: nothing or digits. -/
def payload? (digits : List Char) : Option Nat :=
  if digits.all Char.isDigit then some (digitsValue digits) else none

/-- A special value by its name in small letters. -/
def special? (negative : Bool) (name : List Char) : Option Number :=
  if name = "inf".toList ∨ name = "infinity".toList then some (infinite negative)
  else
    match name with
    | 'n' :: 'a' :: 'n' :: digits => (payload? digits).map (nan negative false)
    | 's' :: 'n' :: 'a' :: 'n' :: digits => (payload? digits).map (nan negative true)
    | _ => none

/-- Digits with a point among them or without: those before it and those after it. -/
def splitPoint (t : List Char) : (List Char × List Char) × List Char :=
  let (whole, r) := takeDigits t
  match r with
  | '.' :: r =>
    let (fraction, r) := takeDigits r
    ((whole, fraction), r)
  | r => ((whole, []), r)

/-- Why a text gives no number. -/
inductive Fault where
  | malformed
  /-- The exponent is too great or too small. -/
  | outOfRange
  deriving DecidableEq, Repr

/-- The exponent of a number's first digit is at most this. -/
def maxExponent : Int := 999999999999999999

/-- The exponent of a number's last digit is at least this. -/
def minExponent : Int := -1999999999999999997

/-- A finite number whose exponents are in range. -/
def inRange (negative : Bool) (digits : Nat) (exponent : Int) : Except Fault Number :=
  if exponent < minExponent ∨ maxExponent < exponent + (digitCount digits : Int) - 1 then
    .error .outOfRange
  else .ok (finite negative digits exponent)

/-- Read a number that has digits: one at least before or after the point; an exponent may follow. -/
def readFinite (negative : Bool) (t : List Char) : Except Fault Number :=
  let ((whole, fraction), r) := splitPoint t
  let (exponent, r) := takeExponent r
  if (whole.isEmpty && fraction.isEmpty) || !r.isEmpty then .error .malformed
  else
    inRange negative (digitsValue (whole ++ fraction))
      (exponent.getD 0 - (fraction.length : Int))

/-- Read a number. -/
def read (t : Text) : Except Fault Number :=
  match plainForm? t with
  | none => .error .malformed
  | some plain =>
    let (negative, r) := takeSign plain
    match special? negative (r.map Char.toLower) with
    | some x => .ok x
    | none => readFinite negative r

/-- Each underscore stands between two digits; `after` tells whether a digit stands before the
text. -/
def isGrouped (after : Bool) : List Char → Bool
  | [] => true
  | '_' :: r => after && (r.head?.map Char.isDigit).getD false && isGrouped false r
  | c :: r => isGrouped c.isDigit r

/-- The double nearest to a number in ASCII, or a special value by its name in small letters. -/
def doubleOf? (negative : Bool) (t : List Char) : Option Double :=
  let name := String.ofList t
  if name = "nan" then some .nan
  else if name = "inf" ∨ name = "infinity" then some (.infinite negative)
  else
    let ((whole, fraction), r) := splitPoint t
    let (exponent, r) := takeExponent r
    if (whole.isEmpty && fraction.isEmpty) || !r.isEmpty then none
    else some (Literal.toDouble ⟨negative, whole, fraction, exponent.getD 0⟩)

/-- Read a double. Here an underscore only divides digits. -/
def readDouble? (t : Text) : Option Double := do
  let plain ← asciiForm? (Text.trim Text.isNumberBlank t)
  if !isGrouped false plain then none
  let (negative, r) := takeSign (plain.filter (· != '_'))
  doubleOf? negative (r.map Char.toLower)

/-- The digits of a finite number with the point after `place` of them. -/
def pointed (digits : List Char) (place : Int) : List Char :=
  if place ≤ 0 then '0' :: '.' :: (List.replicate (-place).toNat '0' ++ digits)
  else if (digits.length : Int) ≤ place then
    digits ++ List.replicate (place.toNat - digits.length) '0'
  else digits.take place.toNat ++ '.' :: digits.drop place.toNat

/-- An exponent with its sign. -/
def exponentText (e : Int) : List Char :=
  'E' :: (if e < 0 then '-' else '+') :: Nat.toDigits 10 e.natAbs

/-- The written form. It has an exponent only where the digits do not reach down to the point, or
begin after more than five zeros behind it. -/
def text : Number → List Char
  | finite negative digits exponent =>
    let ds := Nat.toDigits 10 digits
    let left := exponent + (ds.length : Int)
    let body :=
      if exponent ≤ 0 ∧ -6 < left then pointed ds left
      else pointed ds 1 ++ (if left = 1 then [] else exponentText (left - 1))
    (if negative then ['-'] else []) ++ body
  | infinite negative => (if negative then ['-'] else []) ++ "Infinity".toList
  | nan negative signaling payload =>
    (if negative then ['-'] else []) ++ (if signaling then ['s'] else []) ++ "NaN".toList ++
      (if payload = 0 then [] else Nat.toDigits 10 payload)

/-- The nearest double; a signaling number has none. -/
def toDouble? : Number → Option Double
  | finite negative digits exponent => some (Scaled.nearest negative ⟨digits, exponent⟩)
  | infinite negative => some (.infinite negative)
  | nan _ signaling _ => if signaling then none else some .nan

/-- The whole part of a finite number, toward zero. -/
def truncate? : Number → Option Int
  | finite negative digits exponent =>
    let n : Nat :=
      if 0 ≤ exponent then digits * Nat.pow 10 exponent.toNat
      else if (digitCount digits : Int) < -exponent then 0
      else digits / Nat.pow 10 (-exponent).toNat
    some (if negative then -(n : Int) else (n : Int))
  | _ => none

/-- A zero of either sign. -/
def isZero : Number → Bool
  | finite _ digits _ => digits == 0
  | _ => false

/-- Digits without the zeros at their end, and the exponent that makes up for them. -/
def withoutZeros (digits : Nat) (exponent : Int) : Nat × Int :=
  if digits ≠ 0 ∧ digits % 10 = 0 then withoutZeros (digits / 10) (exponent + 1)
  else (digits, exponent)
termination_by digits
decreasing_by omega

/-- The form that all numbers of one value share. -/
def reduced : Number → Number
  | finite negative digits exponent =>
    if digits = 0 then finite false 0 0
    else
      let (digits, exponent) := withoutZeros digits exponent
      finite negative digits exponent
  | x => x

/-- The same value; what is no number has none. -/
def agrees (x y : Number) : Bool :=
  match x, y with
  | nan .., _ => false
  | _, _ => x.reduced == y.reduced

/-- An integer as a decimal number. -/
def ofInt (n : Int) : Number := finite (n < 0) n.natAbs 0

/-- The exact value of a double. -/
def ofDouble : Double → Number
  | .finite s m e =>
    if 0 ≤ e then finite s (m * Nat.pow 2 e.toNat) 0
    else finite s (m * Nat.pow 5 (-e).toNat) e
  | .infinite s => infinite s
  | .nan => nan false false 0

@[simp] theorem truncate?_ofInt (n : Int) : (ofInt n).truncate? = some n := by
  have h : ((n.natAbs * Nat.pow 10 (0 : Int).toNat : Nat) : Int) = n.natAbs := by simp
  simp only [ofInt, truncate?, Int.le_refl, if_true, h]
  split <;> rename_i hn <;> simp only [decide_eq_true_eq] at hn <;> congr 1 <;> omega

end Number
end BackendMigration.Decimal
