import BackendMigration.Decimal.Number
import BackendMigration.Time.Timestamp

/-! The values that documents hold. -/
namespace BackendMigration.Document

/-- How bytes are kept: fixed, as an array that can grow, or as a view of a part of memory. -/
inductive ByteForm where
  | fixed
  | growable
  | view
  deriving DecidableEq, Repr

/-- A value of a document field. The keys of maps are values too. -/
inductive Value where
  | null
  | bool (b : Bool)
  | int (n : Int)
  | float (x : Double)
  | text (s : String)
  | list (items : List Value)
  | tuple (items : List Value)
  | set (frozen : Bool) (items : List Value)
  | map (entries : List (Value × Value))
  | timestamp (t : Time.Timestamp)
  | date (d : Time.Date)
  | clock (c : Time.Clock)
  /-- A reference to another document. -/
  | reference (path : String)
  | geoPoint (latitude longitude : Value)
  | bytes (form : ByteForm) (b : List UInt8)
  | decimal (d : Decimal.Number)
  /-- A value of an unknown type, with its text. -/
  | unknown (s : String)
  deriving Repr, Inhabited

/-- The entries of a map. -/
abbrev Entries := List (Value × Value)

namespace Value

/-- The text that a value is. -/
def text? : Value → Option String
  | text s => some s
  | _ => none

/-- The number that a value is; truth values count as one and zero. -/
def number? : Value → Option Decimal.Number
  | bool b => some (.ofInt (if b then 1 else 0))
  | int n => some (.ofInt n)
  | float x => some (.ofDouble x)
  | decimal d => some d
  | _ => none

mutual

/-- Two values stand for the same: numbers of the same value do, of whatever kind, and maps with
the same entries in any order. -/
def agrees : Value → Value → Bool
  | null, null => true
  | text s, text t => s == t
  | list xs, list ys => agreeItems xs ys
  | tuple xs, tuple ys => agreeItems xs ys
  | set _ xs, set _ ys => xs.length == ys.length && agreeMembers xs ys
  | map es, map fs => es.length == fs.length && agreeEntries es fs
  | timestamp t, timestamp u => t.agrees u
  | date d, date e => d == e
  | clock c, clock d => c == d
  | reference p, reference q => p == q
  | geoPoint a b, geoPoint c d => agrees a c && agrees b d
  | bytes _ b, bytes _ c => b == c
  | x, y =>
    match x.number?, y.number? with
    | some m, some n => m.agrees n
    | _, _ => false

def agreeItems : List Value → List Value → Bool
  | [], [] => true
  | x :: xs, y :: ys => agrees x y && agreeItems xs ys
  | _, _ => false

def agreeMembers : List Value → List Value → Bool
  | [], _ => true
  | x :: xs, ys => ys.any (agrees x) && agreeMembers xs ys

def agreeEntries : List (Value × Value) → List (Value × Value) → Bool
  | [], _ => true
  | (k, x) :: r, fs => fs.any (fun f => agrees k f.1 && agrees x f.2) && agreeEntries r fs

end

@[simp] theorem agrees_text (s t : String) : agrees (text s) (text t) = (s == t) := by
  simp [agrees]

mutual

/-- Values that can be keys of a map: those that cannot change. -/
def isKey : Value → Bool
  | list _ | map _ | set false _ | bytes .growable _ => false
  | decimal (.nan _ signaling _) => !signaling
  | tuple xs => areKeys xs
  | _ => true

def areKeys : List Value → Bool
  | [] => true
  | x :: xs => isKey x && areKeys xs

end

/-- Values that count as no: null, false, zero and what is empty. -/
def isFalsy : Value → Bool
  | null => true
  | bool b => !b
  | int n => n == 0
  | float x => x.isZero
  | text s => s.isEmpty
  | list xs | tuple xs | set _ xs => xs.isEmpty
  | map es => es.isEmpty
  | bytes _ b => b.isEmpty
  | decimal d => d.isZero
  | _ => false

end Value

namespace Entries

/-- Put a value under a key: at the place of an entry with the same key, or at the end. -/
def put (key value : Value) : Entries → Entries
  | [] => [(key, value)]
  | (k, v) :: r => if k.agrees key then (k, value) :: r else (k, v) :: put key value r

/-- The value under a text key. -/
def get? (name : String) (entries : Entries) : Option Value :=
  (entries.find? fun e => e.1.text? == some name).map (·.2)

/-- Put a value under a text key. -/
def set (name : String) (value : Value) (entries : Entries) : Entries :=
  put (.text name) value entries

end Entries
end BackendMigration.Document
