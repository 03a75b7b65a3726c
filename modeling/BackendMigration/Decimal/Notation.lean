import BackendMigration.Decimal.Shortest

/-! The written form of doubles, with the shortest digits and positional for common magnitudes, and numbers
read from decimal text. -/
namespace BackendMigration.Decimal

/-- How numbers are laid out. -/
structure Layout where
  /-- The exponents written positionally: from `low` on and below `high`. -/
  low : Int
  high : Int
  /-- The least number of exponent digits. -/
  exponentDigits : Nat
  notANumber : String
  infinity : String
  deriving DecidableEq, Repr

/-- Numbers in messages. -/
def plain : Layout := ⟨-4, 16, 2, "nan", "inf"⟩

/-- Numbers in data files. -/
def spelled : Layout := { plain with notANumber := "NaN", infinity := "Infinity" }

/-- Positional digits: the point stands after `before` digits, or before leading zeros. -/
def positional (digits : List Char) (exponent : Int) : List Char :=
  if exponent < 0 then
    '0' :: '.' :: (List.replicate ((-exponent).toNat - 1) '0' ++ digits)
  else
    let before := exponent.toNat + 1
    let padded := digits ++ List.replicate (before - digits.length) '0'
    let fraction := padded.drop before
    padded.take before ++ '.' :: (if fraction.isEmpty then ['0'] else fraction)

/-- Exponent form: one digit before the point, and a signed exponent. -/
def exponential (width : Nat) (digits : List Char) (exponent : Int) : List Char :=
  let power := Nat.toDigits 10 exponent.natAbs
  digits.take 1 ++ (if digits.length ≤ 1 then [] else '.' :: digits.drop 1) ++
    'e' :: (if exponent < 0 then '-' else '+') ::
    (List.replicate (width - power.length) '0' ++ power)

/-- Drop the zeros at the end. -/
def trimZeros (digits : List Char) : List Char := (digits.reverse.dropWhile (· == '0')).reverse

/-- The magnitude of a finite number. -/
def renderMagnitude (layout : Layout) (x : Double) : List Char :=
  match if x.isZero then none else shortest? x with
  | none => positional ['0'] 0
  | some s =>
    let all := Nat.toDigits 10 s.digits
    let exponent := s.exponent + (all.length : Int) - 1
    let digits := trimZeros all
    if layout.low ≤ exponent && exponent < layout.high then positional digits exponent
    else exponential layout.exponentDigits digits exponent

/-- The written form of a number. -/
def renderWith (layout : Layout) (x : Double) : List Char :=
  match x with
  | .nan => layout.notANumber.toList
  | .infinite s => (if s then ['-'] else []) ++ layout.infinity.toList
  | .finite s _ _ => (if s then ['-'] else []) ++ renderMagnitude layout x

/-- The written form of a number in messages. -/
def render (x : Double) : String := String.ofList (renderWith plain x)

/-! Reading. -/

/-- The digits at the front of a text, and the rest. -/
def takeDigits (t : List Char) : List Char × List Char := (t.takeWhile Char.isDigit, t.dropWhile Char.isDigit)

/-- The value of ASCII digits. -/
def digitsValue (ds : List Char) : Nat := ds.foldl (fun n c => 10 * n + (c.toNat - 48)) 0

/-- A number as written: sign, digits before and after the point, and an exponent. -/
structure Literal where
  negative : Bool
  whole : List Char
  fraction : List Char
  exponent : Int
  deriving DecidableEq, Repr

/-- Numbers with more digits before the point than this are infinite, and with as many zeros after
it they are zero. -/
def range : Int := 400

/-- The double nearest to a decimal number with a sign, of whatever size. -/
def Scaled.nearest (negative : Bool) (x : Scaled) : Double :=
  let magnitude := (digitCount x.digits : Int) + x.exponent
  if x.digits = 0 then .zero negative
  else if range < magnitude then .infinite negative
  else if magnitude < -range then .zero negative
  else x.toDouble negative

/-- The double nearest to a written number. -/
def Literal.toDouble (l : Literal) : Double :=
  Scaled.nearest l.negative ⟨digitsValue (l.whole ++ l.fraction), l.exponent - l.fraction.length⟩

/-- A sign at the front of a text. -/
def takeSign : List Char → Bool × List Char
  | '-' :: r => (true, r)
  | '+' :: r => (false, r)
  | r => (false, r)

/-- An exponent at the front of a text; without digits there is none. -/
def takeExponent (t : List Char) : Option Int × List Char :=
  match t with
  | c :: r =>
    if c = 'e' ∨ c = 'E' then
      let (negative, r) := takeSign r
      match takeDigits r with
      | ([], _) => (none, t)
      | (ds, rest) =>
        (some (if negative then -(digitsValue ds : Int) else (digitsValue ds : Int)), rest)
    else (none, t)
  | [] => (none, [])

/-- A fraction at the front of a text; without digits there is none. -/
def takeFraction (t : List Char) : List Char × List Char :=
  match t with
  | '.' :: r =>
    match takeDigits r with
    | ([], _) => ([], t)
    | (ds, rest) => (ds, rest)
  | _ => ([], t)

end BackendMigration.Decimal
