import BackendMigration.Base64
import BackendMigration.Document.Inspect
import BackendMigration.Json.Extent

/-! The JSON form of values. -/
namespace BackendMigration.Document

/-- Why a value has no JSON form. -/
inductive EncodeError where
  /-- A map has a key of this type. -/
  | badKey (type : String)
  | signalingNaN
  /-- There is too much in the value. -/
  | excess (x : Json.Excess)
  deriving DecidableEq, Repr

def EncodeError.message : EncodeError → String
  | badKey type => "keys must be str, int, float, bool or None, not " ++ type
  | signalingNaN => "cannot convert signaling NaN to float"
  | excess x => x.message

namespace Value

/-- The name of a value's type, with the names around it. -/
def typeName : Value → String
  | null => "NoneType"
  | bool _ => "bool"
  | int _ => "int"
  | float _ => "float"
  | text _ => "str"
  | list _ => "list"
  | tuple _ => "tuple"
  | set frozen _ => if frozen then "frozenset" else "set"
  | map _ => "dict"
  | timestamp _ => "datetime.datetime"
  | date _ => "datetime.date"
  | clock _ => "datetime.time"
  | reference _ => "DocumentReference"
  | geoPoint _ _ => "GeoPoint"
  | bytes .fixed _ => "bytes"
  | bytes .growable _ => "bytearray"
  | bytes .view _ => "memoryview"
  | decimal _ => "decimal.Decimal"
  | unknown _ => "Thing"

/-- The field name of a key. -/
def fieldName : Value → Except EncodeError String
  | text s => .ok s
  | int n => .ok (toString n)
  | float x => .ok (String.ofList (Decimal.renderWith Decimal.spelled x))
  | bool true => .ok "true"
  | bool false => .ok "false"
  | null => .ok "null"
  | key => .error (.badKey key.typeName)

mutual

/-- The JSON form of a value. -/
def toJson : Value → Except EncodeError Json
  | null => .ok .null
  | bool b => .ok (.bool b)
  | int n => .ok (.int n)
  | float x => .ok (.float x)
  | text s => .ok (.str s)
  | list items => do return .arr (← itemsToJson items)
  | tuple items => do return .arr (← itemsToJson items)
  | set _ items => do return .arr (← itemsToJson items)
  | map entries => do return .obj (← entriesToJson entries)
  | timestamp t => .ok (.str t.text)
  | date d => .ok (.str d.text)
  | clock c => .ok (.str c.text)
  | reference path => .ok (.str path)
  | geoPoint latitude longitude => do
    return .obj [("latitude", ← latitude.toJson), ("longitude", ← longitude.toJson)]
  | bytes _ b => .ok (.str (String.ofList (Base64.encode b)))
  | decimal d =>
    match d.toDouble? with
    | some x => .ok (.float x)
    | none => .error .signalingNaN
  | unknown s => .ok (.str s)

def itemsToJson : List Value → Except EncodeError (List Json)
  | [] => .ok []
  | x :: xs => do return (← x.toJson) :: (← itemsToJson xs)

def entriesToJson : List (Value × Value) → Except EncodeError (List (String × Json))
  | [] => .ok []
  | (k, x) :: r => do
    let name ← k.fieldName
    return (name, ← x.toJson) :: (← entriesToJson r)

end

mutual

/-- A JSON value as a value of a document. -/
def ofJson : Json → Value
  | .null => .null
  | .bool b => .bool b
  | .int n => .int n
  | .float x => .float x
  | .str s => .text s
  | .arr items => .list (ofJsonItems items)
  | .obj fields => .map (ofJsonFields fields)

def ofJsonItems : List Json → List Value
  | [] => []
  | x :: xs => ofJson x :: ofJsonItems xs

def ofJsonFields : List (String × Json) → List (Value × Value)
  | [] => []
  | (k, x) :: r => (.text k, ofJson x) :: ofJsonFields r

end

mutual

/-- A JSON value keeps its form. -/
theorem toJson_ofJson : ∀ j : Json, (ofJson j).toJson = .ok j
  | .null => rfl
  | .bool _ => rfl
  | .int _ => rfl
  | .float _ => rfl
  | .str _ => rfl
  | .arr items => by simp only [ofJson, toJson, itemsToJson_ofJson items]; rfl
  | .obj fields => by simp only [ofJson, toJson, entriesToJson_ofJson fields]; rfl

theorem itemsToJson_ofJson : ∀ items : List Json, itemsToJson (ofJsonItems items) = .ok items
  | [] => rfl
  | x :: xs => by simp only [ofJsonItems, itemsToJson, toJson_ofJson x, itemsToJson_ofJson xs]; rfl

theorem entriesToJson_ofJson :
    ∀ fields : List (String × Json), entriesToJson (ofJsonFields fields) = .ok fields
  | [] => rfl
  | (k, x) :: r => by
    simp only [ofJsonFields, entriesToJson, fieldName, toJson_ofJson x, entriesToJson_ofJson r]
    rfl

end

/-- The JSON form of a value that is none itself; for one that is, its text. -/
def fallbackJson : Value → Except EncodeError Json
  | v@(.null) | v@(.bool _) | v@(.int _) | v@(.float _) | v@(.text _) | v@(.list _) | v@(.tuple _)
  | v@(.map _) => .ok (.str v.spelled)
  | v => v.toJson

/-- The JSON form of a value; without one, its text. -/
def shown (v : Value) : Json :=
  match v.toJson with
  | .ok j => j
  | .error _ => .str v.spelled

@[simp] theorem shown_ofJson (j : Json) : (ofJson j).shown = j := by simp [shown, toJson_ofJson]

end Value
end BackendMigration.Document
