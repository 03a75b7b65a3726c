import BackendMigration.Document.Inspect
import BackendMigration.Text.Integer

/-! Whole numbers taken from values. -/
namespace BackendMigration.Document

/-- Why a value gives no whole number. -/
inductive IntegerFault where
  /-- The text or the bytes of this form write none. -/
  | malformed (form : Text)
  | overlong (digits : Nat)
  | nan
  | infinite
  /-- A decimal number that is none. -/
  | decimalNaN
  | decimalInfinite
  /-- The value is of a kind that stands for no number. -/
  | kind
  deriving DecidableEq, Repr

/-- A form is told up to this many characters. -/
def formLimit : Nat := 200

def IntegerFault.message : IntegerFault → String
  | malformed form =>
    "invalid literal for int() with base 10: " ++ String.ofList (form.take formLimit)
  | overlong digits => Text.overlongMessage digits
  | nan => "cannot convert float NaN to integer"
  | infinite => "cannot convert float infinity to integer"
  | decimalNaN => "cannot convert NaN to integer"
  | decimalInfinite => "cannot convert Infinity to integer"
  | kind => "a number is required"

/-- The whole number that a text of this form writes. -/
def integerOfText (form t : Text) : Except IntegerFault Int :=
  match Text.readInteger t with
  | .ok n => .ok n
  | .error .malformed => .error (.malformed form)
  | .error (.overlong digits) => .error (.overlong digits)

/-- Bytes as a text in which only ASCII counts. -/
def asciiText (b : List UInt8) : Text := b.map fun x => if x < 0x80 then Char.ofNat x.toNat else '?'

/-- The whole number that a value stands for; fractions are cut off. -/
def Value.integer : Value → Except IntegerFault Int
  | int n => .ok n
  | bool b => .ok (if b then 1 else 0)
  | float .nan => .error .nan
  | float x =>
    match x.truncate? with
    | some n => .ok n
    | none => .error .infinite
  | text s => integerOfText (Text.quoted s.toList) s.toList
  | bytes _ b => integerOfText (quotedBytes (b.take formLimit)) (asciiText b)
  | decimal (.nan ..) => .error .decimalNaN
  | decimal d =>
    match d.truncate? with
    | some n => .ok n
    | none => .error .decimalInfinite
  | _ => .error .kind

@[simp] theorem Value.integer_int (n : Int) : integer (int n) = .ok n := rfl

end BackendMigration.Document
