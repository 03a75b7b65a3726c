import BackendMigration.Document.Encoding

/-! The bounds of an export. -/
namespace BackendMigration.Export

/-- Where nested documents go: to relations of their own, or into the record of their parent. -/
inductive Mode where
  | flatten
  | nest
  deriving DecidableEq, Repr

namespace Mode

def name : Mode → String
  | flatten => "flatten"
  | nest => "nest"

def named? (s : String) : Option Mode := [flatten, nest].find? (·.name == s)

/-- The mode that a value names. -/
def ofValue? (v : Document.Value) : Option Mode := v.text?.bind named?

/-- What is said of a value that names no mode, given its form. -/
def unknownMessage (form : Text) : String := String.ofList form ++ " is not a valid SubcollectionMode"

@[simp] theorem named?_name (m : Mode) : named? m.name = some m := by cases m <;> decide

end Mode

/-- An export as it is asked for. -/
structure Order where
  collection : String
  batchSize : Int := 1000
  limit : Int := 0
  includeSubcollections : Bool := false
  maxDepth : Int := 3
  subcollectionLimit : Int := 100
  mode : Document.Value := .text "flatten"
  deriving Repr

/-- The names of what can be asked for. -/
def Order.names : List String :=
  ["collection_name", "batch_size", "limit", "include_subcollections", "max_depth",
    "subcollection_limit", "subcollection_mode"]

/-- The bound under a name; truth values count as one and zero. -/
def boundNamed? (j : Json) (name : String) (other : Int) : Option Int :=
  match j.field? name with
  | none => some other
  | some (.int n) => some n
  | some (.bool b) => some (if b then 1 else 0)
  | some _ => none

/-- The order of a JSON object. There is none without a collection, with a bound that is no whole
number, or with a name that is not known. -/
def Order.ofJson? : Json → Option Order
  | j@(.obj fields) => do
    if !fields.all (Order.names.contains ·.1) then none
    let value (name : String) (other : Json) := Document.Value.ofJson ((j.field? name).getD other)
    return {
      collection := ← (← j.field? "collection_name").text?
      batchSize := ← boundNamed? j "batch_size" 1000
      limit := ← boundNamed? j "limit" 0
      includeSubcollections := !(value "include_subcollections" .null).isFalsy
      maxDepth := ← boundNamed? j "max_depth" 3
      subcollectionLimit := ← boundNamed? j "subcollection_limit" 100
      mode := value "subcollection_mode" (.str Mode.flatten.name) }
  | _ => none

/-- An export whose bounds are in range: a limit of zero is none. -/
structure Settings where
  collection : String
  batchSize : Nat
  limit : Nat
  includeSubcollections : Bool
  maxDepth : Nat
  subcollectionLimit : Nat
  mode : Mode
  batchSize_pos : 0 < batchSize := by decide
  deriving Repr

/-- What is wrong with an order. -/
inductive OrderError where
  | batchSize
  | limit
  | maxDepth
  | subcollectionLimit
  /-- A value of this form names no mode. -/
  | mode (form : Text)
  deriving DecidableEq, Repr

def OrderError.message : OrderError → String
  | batchSize => "batch_size must be positive"
  | limit => "limit must not be negative"
  | maxDepth => "max_depth must not be negative"
  | subcollectionLimit => "subcollection_limit must be positive"
  | mode form => Mode.unknownMessage form

/-- Check the bounds of an order, then its mode. -/
def Order.settings (o : Order) : Except OrderError Settings :=
  if h : o.batchSize ≤ 0 then .error .batchSize
  else if o.limit < 0 then .error .limit
  else if o.maxDepth < 0 then .error .maxDepth
  else if o.subcollectionLimit ≤ 0 then .error .subcollectionLimit
  else match Mode.ofValue? o.mode with
    | none => .error (.mode o.mode.inspect)
    | some mode => .ok {
        collection := o.collection
        batchSize := o.batchSize.toNat
        limit := o.limit.toNat
        includeSubcollections := o.includeSubcollections
        maxDepth := o.maxDepth.toNat
        subcollectionLimit := o.subcollectionLimit.toNat
        mode := mode
        batchSize_pos := by omega }

end BackendMigration.Export
