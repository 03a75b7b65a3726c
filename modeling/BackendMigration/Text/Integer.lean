import BackendMigration.Text.Blank

/-! Decimal digits of every script, and whole numbers written in a text. -/
namespace BackendMigration.Text

/-- The code points of the zeros; each is followed by its script's digits one to nine (Unicode 14). -/
def digitZeros : List Nat := [
  0x30, 0x660, 0x6F0, 0x7C0, 0x966, 0x9E6, 0xA66, 0xAE6, 0xB66, 0xBE6, 0xC66, 0xCE6, 0xD66, 0xDE6,
  0xE50, 0xED0, 0xF20, 0x1040, 0x1090, 0x17E0, 0x1810, 0x1946, 0x19D0, 0x1A80, 0x1A90, 0x1B50,
  0x1BB0, 0x1C40, 0x1C50, 0xA620, 0xA8D0, 0xA900, 0xA9D0, 0xA9F0, 0xAA50, 0xABF0, 0xFF10, 0x104A0,
  0x10D30, 0x11066, 0x110F0, 0x11136, 0x111D0, 0x112F0, 0x11450, 0x114D0, 0x11650, 0x116C0, 0x11730,
  0x118E0, 0x11950, 0x11C50, 0x11D50, 0x11DA0, 0x16A60, 0x16AC0, 0x16B50, 0x1D7CE, 0x1D7D8, 0x1D7E2,
  0x1D7EC, 0x1D7F6, 0x1E140, 0x1E2F0, 0x1E950, 0x1FBF0]

/-- The value of a decimal digit. -/
def digitValue? (c : Char) : Option Nat :=
  if c.toNat < 128 then
    if c.isDigit then some (c.toNat - 48) else none
  else (digitZeros.find? fun z => z ≤ c.toNat && c.toNat < z + 10).map (c.toNat - ·)

/-- A decimal digit of some script. -/
def isDecimal (c : Char) : Bool := (digitValue? c).isSome

/-- The number a text of decimal digits writes; other characters count as zero. -/
def digitsToNat (cs : List Char) : Nat :=
  cs.foldl (fun n c => 10 * n + (digitValue? c).getD 0) 0

@[simp] theorem digitsToNat_nil : digitsToNat [] = 0 := rfl

theorem digitsToNat_concat (cs : List Char) (c : Char) :
    digitsToNat (cs ++ [c]) = 10 * digitsToNat cs + (digitValue? c).getD 0 := by
  simp [digitsToNat]

/-! Whole numbers. -/

/-- Why a text gives no whole number. -/
inductive IntegerFault where
  | malformed
  | overlong (digits : Nat)
  deriving DecidableEq, Repr

/-- The number of digits that are read at most. -/
def digitLimit : Nat := 4300

/-- What is said of a number with too many digits. -/
def overlongMessage (digits : Nat) : String :=
  "Exceeds the limit (" ++ toString digitLimit ++
    " digits) for integer string conversion: value has " ++ toString digits ++
    " digits; use sys.set_int_max_str_digits() to increase the limit"

def IntegerFault.message : IntegerFault → String
  | malformed => "not a whole number"
  | overlong digits => overlongMessage digits

/-- The number that decimal digits write, if they are not too many. -/
def readDigits (digits : Text) : Except IntegerFault Nat :=
  if digitLimit < digits.length then .error (.overlong digits.length)
  else .ok (digitsToNat digits)

/-- White space that may stand around a number; separators of files and records may not. -/
def isNumberBlank (c : Char) : Bool := isBlank c && !(28 ≤ c.toNat && c.toNat ≤ 31)

/-- Single underscores stand between digits, and nowhere else. -/
def isGrouped : Text → Bool
  | [] => true
  | ['_'] => false
  | '_' :: '_' :: _ => false
  | _ :: r => isGrouped r

/-- The number at the front of a text; only white space may follow it. -/
def readNatural (t : Text) : Except IntegerFault Nat :=
  let run := t.takeWhile fun c => isDecimal c || c == '_'
  if run.isEmpty || run.head? = some '_' || !isGrouped run then .error .malformed
  else
    match readDigits (run.filter (· != '_')) with
    | .error f => .error f
    | .ok n => if (t.drop run.length).all isNumberBlank then .ok n else .error .malformed

/-- The whole number that a text writes, with white space around it and a sign in front. -/
def readInteger (t : Text) : Except IntegerFault Int :=
  match trimStart isNumberBlank t with
  | '-' :: r => (readNatural r).map fun n => -(n : Int)
  | '+' :: r => (readNatural r).map fun n => (n : Int)
  | r => (readNatural r).map fun n => (n : Int)

/-- Digits are read unless they are too many. -/
theorem readDigits_eq_ok_iff {digits : Text} {n : Nat} :
    readDigits digits = .ok n ↔ digits.length ≤ digitLimit ∧ digitsToNat digits = n := by
  unfold readDigits
  split
  · simp only [reduceCtorEq, false_iff, not_and]
    intro h
    omega
  · simp only [Except.ok.injEq, iff_and_self]
    intro _
    omega

end BackendMigration.Text
