import BackendMigration.Decimal.Notation
import BackendMigration.Document.Value
import BackendMigration.Text.Quoted
import BackendMigration.Text.Search
import BackendMigration.Time.Form

/-! Values as they appear in messages. -/
namespace BackendMigration.Document

/-- A byte inside quotes of which one kind is escaped: a printable character of ASCII, or an
escape. -/
def quotedByte (escaped : Char) (b : UInt8) : Text :=
  let c := Char.ofNat b.toNat
  if c = escaped || c = '\\' then ['\\', c]
  else if c = '\t' then ['\\', 't']
  else if c = '\n' then ['\\', 'n']
  else if c = '\r' then ['\\', 'r']
  else if 0x20 ≤ b ∧ b < 0x7F then [c]
  else '\\' :: 'x' :: Text.hex 2 b.toNat

/-- The quotes around bytes. -/
def byteMark (b : List UInt8) : Char := Text.quoteMark (b.map fun x => Char.ofNat x.toNat)

/-- Bytes in quotes. -/
def quotedBytes (b : List UInt8) : Text :=
  let mark := byteMark b
  'b' :: mark :: (b.flatMap (quotedByte mark) ++ [mark])

/-- The bytes of an array in quotes; single quotes are escaped in either kind. -/
def quotedArray (b : List UInt8) : Text :=
  let mark := byteMark b
  'b' :: mark :: (b.flatMap (quotedByte '\'') ++ [mark])

/-- A form in parentheses after a name. -/
def named (name : String) (form : Text) : Text := name.toList ++ '(' :: (form ++ [')'])

/-- Items in parentheses; a comma follows a single one. -/
def parenthesized : List Text → Text
  | [x] => '(' :: (x ++ [',', ')'])
  | xs => '(' :: (Text.join [',', ' '] xs ++ [')'])

/-- Members in braces; the empty set has a name instead. -/
def setForm (frozen : Bool) (members : List Text) : Text :=
  let name := if frozen then "frozenset" else "set"
  if members.isEmpty then named name []
  else
    let braced := '\x7b' :: (Text.join [',', ' '] members ++ ['\x7d'])
    if frozen then named name braced else braced

def byteForm (form : ByteForm) (b : List UInt8) : Text :=
  match form with
  | .fixed => quotedBytes b
  | .growable => named "bytearray" (quotedArray b)
  | .view => "<memory>".toList

namespace Value

mutual

/-- The form of a value inside another one. -/
def inspect : Value → Text
  | null => "None".toList
  | bool true => "True".toList
  | bool false => "False".toList
  | int n => (toString n).toList
  | float x => Decimal.renderWith Decimal.plain x
  | text s => Text.quoted s.toList
  | list xs => '[' :: (Text.join [',', ' '] (inspectItems xs) ++ [']'])
  | tuple xs => parenthesized (inspectItems xs)
  | set frozen xs => setForm frozen (inspectItems xs)
  | map es => '\x7b' :: (Text.join [',', ' '] (inspectEntries es) ++ ['\x7d'])
  | timestamp t => t.inspect.toList
  | date d => d.inspect.toList
  | clock c => c.inspect.toList
  | reference path => named "DocumentReference" (Text.quoted path.toList)
  | geoPoint a b => "GeoPoint".toList ++ parenthesized [inspect a, inspect b]
  | bytes form b => byteForm form b
  | decimal d => named "Decimal" (Text.quoted d.text)
  | unknown s => s.toList

def inspectItems : List Value → List Text
  | [] => []
  | x :: xs => inspect x :: inspectItems xs

def inspectEntries : List (Value × Value) → List Text
  | [] => []
  | (k, x) :: r => (inspect k ++ [':', ' '] ++ inspect x) :: inspectEntries r

end

/-- The form of a value on its own: a text stands for itself, and times and decimal numbers are
written out. -/
def spelled : Value → String
  | text s => s
  | timestamp t => t.spelled
  | date d => d.text
  | clock c => c.text
  | decimal d => String.ofList d.text
  | v => String.ofList v.inspect

@[simp] theorem spelled_text (s : String) : spelled (text s) = s := rfl

end Value
end BackendMigration.Document
