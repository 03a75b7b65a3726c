import BackendMigration.Json.Basic
import BackendMigration.Text.Integer

/-! What is too much to write as JSON. -/
namespace BackendMigration.Json

/-- Why a value is too much to write. -/
inductive Excess where
  /-- A whole number has too many digits. -/
  | digits
  /-- Arrays and objects are nested too deeply. -/
  | depth
  deriving DecidableEq, Repr

def Excess.message : Excess → String
  | digits =>
    "Exceeds the limit (" ++ toString Text.digitLimit ++
      " digits) for integer string conversion; use sys.set_int_max_str_digits() to increase the limit"
  | depth => "maximum recursion depth exceeded while encoding a JSON object"

/-- A whole number has more digits than are converted. -/
def isOverlong (n : Int) : Bool := Text.digitLimit < (Nat.toDigits 10 n.natAbs).length

mutual

/-- What is too much in a value of which `room` arrays and objects may be open at once. -/
def excess? (room : Nat) : Json → Option Excess
  | int n => if isOverlong n then some .digits else none
  | arr items => if room = 0 then some .depth else excessOfItems? (room - 1) items
  | obj fields => if room = 0 then some .depth else excessOfFields? (room - 1) fields
  | _ => none

def excessOfItems? (room : Nat) : List Json → Option Excess
  | [] => none
  | x :: xs => (excess? room x).or (excessOfItems? room xs)

def excessOfFields? (room : Nat) : List (String × Json) → Option Excess
  | [] => none
  | (_, x) :: fs => (excess? room x).or (excessOfFields? room fs)

end

/-- Nothing is too much in a list of items if nothing is in any of them. -/
theorem excessOfItems?_eq_none_iff {room : Nat} {items : List Json} :
    excessOfItems? room items = none ↔ ∀ x ∈ items, excess? room x = none := by
  induction items with
  | nil => simp [excessOfItems?]
  | cons x xs ih => simp [excessOfItems?, ih]

/-- Nothing is too much in a list of fields if nothing is in any of them. -/
theorem excessOfFields?_eq_none_iff {room : Nat} {fields : List (String × Json)} :
    excessOfFields? room fields = none ↔ ∀ f ∈ fields, excess? room f.2 = none := by
  induction fields with
  | nil => simp [excessOfFields?]
  | cons f fs ih => simp [excessOfFields?, ih]

end BackendMigration.Json
