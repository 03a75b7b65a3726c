import BackendMigration.Base64
import BackendMigration.Decimal.Number
import BackendMigration.Document.Encoding
import BackendMigration.Text.Integer
import BackendMigration.Time.Calendar

/-! Values written as JSON, with tags for what JSON has no form for. An object with one field whose
name is a tag is a value of that kind; any other object is a map. -/
namespace BackendMigration.Document

/-- Why a tagged JSON value is none. -/
inductive TagFault where
  /-- What stands under the tag is not of the form it asks for. -/
  | malformed (tag : String)
  /-- The text under the tag writes no decimal number. -/
  | decimal (f : Decimal.Number.Fault)
  /-- The digits under the tag write no whole number. -/
  | integer (f : Text.IntegerFault)
  /-- The text under the tag is no number. -/
  | float (s : String)
  | bytes (f : Base64.Fault)
  /-- A value that can change is a member of a set or a key of a map. -/
  | changeable
  /-- A part of a date or of a time is missing or no whole number. -/
  | part
  | range (f : Time.RangeFault)
  deriving DecidableEq, Repr

/-- The whole number at a place; truth values count as one and zero. -/
def partAt (parts : List Json) (i : Nat) (missing : Except TagFault Int) : Except TagFault Int :=
  match parts[i]? with
  | some (.int n) => .ok n
  | some (.bool b) => .ok (if b then 1 else 0)
  | some _ => .error .part
  | none => missing

/-- The date that a list of numbers starts with. -/
def dateOf (parts : List Json) : Except TagFault Time.Date := do
  let part (i : Nat) : Except TagFault Int := partAt parts i (.error .part)
  (Time.Date.ofNumbers (← part 0) (← part 1) (← part 2)).mapError .range

/-- The time of day that a list of numbers starts with; missing ones are zero. -/
def clockOf (parts : List Json) : Except TagFault Time.Clock := do
  let part (i : Nat) : Except TagFault Int := partAt parts i (.ok 0)
  (Time.Clock.ofNumbers (← part 0) (← part 1) (← part 2) (← part 3)).mapError .range

/-- The offset at a place, if there is one. -/
def offsetAt (parts : List Json) (i : Nat) : Except TagFault (Option Int) :=
  match parts[i]? with
  | none | some .null => .ok none
  | some _ => do
    return some (← (Time.offsetOfMinutes (← partAt parts i (.error .part))).mapError .range)

/-- The point in time of a list of numbers: a date, a time of day and an offset. -/
def timestampOf (parts : List Json) : Except TagFault Time.Timestamp := do
  let offset ← offsetAt parts 7
  return ⟨← dateOf parts, ← clockOf (parts.drop 3), offset⟩

/-- The value of a tag over a text. -/
def textTag (tag s : String) : Except TagFault Value :=
  let bytes (form : ByteForm) : Except TagFault Value :=
    ((Base64.decode s.toList).mapError .bytes).map (.bytes form)
  match tag with
  | "$ref" => .ok (.reference s)
  | "$obj" => .ok (.unknown s)
  | "$bytes" => bytes .fixed
  | "$bytearray" => bytes .growable
  | "$memoryview" => bytes .view
  | "$decimal" => (Decimal.Number.read s.toList).mapError .decimal |>.map .decimal
  | "$float" =>
    match Decimal.Number.readDouble? s.toList with
    | some x => .ok (.float x)
    | none => .error (.float s)
  | "$int" => (Text.readInteger s.toList).mapError .integer |>.map .int
  | _ => .ok (.map [(.text tag, .text s)])

/-- Values that cannot change. -/
def fixedItems (items : List Value) : Except TagFault (List Value) :=
  if Value.areKeys items then .ok items else .error .changeable

/-- The value of a tag over a list of values; `parts` is the list as it is written. -/
def listTag (tag : String) (parts : List Json) (items : List Value) : Except TagFault Value :=
  match tag, items with
  | "$datetime", _ => (timestampOf parts).map .timestamp
  | "$date", _ => (dateOf parts).map .date
  | "$time", _ => (clockOf parts).map .clock
  | "$geo", [latitude, longitude] => .ok (.geoPoint latitude longitude)
  | "$geo", _ => .error (.malformed tag)
  | "$set", _ => (fixedItems items).map (.set false)
  | "$frozenset", _ => (fixedItems items).map (.set true)
  | "$tuple", _ => .ok (.tuple items)
  | _, _ => .ok (.map [(.text tag, .list items)])

/-- A map of pairs, each a list of a key and a value. -/
def mapOfPairs : List Value → Except TagFault Entries
  | [] => .ok []
  | .list [k, v] :: rest => do
    if !k.isKey then .error .changeable
    return (k, v) :: (← mapOfPairs rest)
  | _ :: _ => .error (.malformed "$map")

/-- Entries put one after another: of two for one key the later counts, at the place of the
first. -/
def putAll (entries : Entries) : Entries := entries.foldl (fun es e => Entries.put e.1 e.2 es) []

mutual

/-- The value that tagged JSON writes. -/
def Value.ofTagged : Json → Except TagFault Value
  | .arr items => do return .list (← ofTaggedItems items)
  | .obj [("$map", .arr pairs)] => do return .map (putAll (← mapOfPairs (← ofTaggedItems pairs)))
  | .obj [(tag, .str s)] => textTag tag s
  | .obj [(tag, .arr parts)] => do listTag tag parts (← ofTaggedItems parts)
  | .obj fields => do return .map (← ofTaggedFields fields)
  | plain => .ok (.ofJson plain)

def ofTaggedItems : List Json → Except TagFault (List Value)
  | [] => .ok []
  | x :: xs => do return (← Value.ofTagged x) :: (← ofTaggedItems xs)

def ofTaggedFields : List (String × Json) → Except TagFault Entries
  | [] => .ok []
  | (k, x) :: r => do return (.text k, ← Value.ofTagged x) :: (← ofTaggedFields r)

end

end BackendMigration.Document
