import BackendMigration.Json.Basic

/-! Checking the bodies of requests. -/
namespace BackendMigration.Service

/-- A field of a request's body. All fields hold texts. -/
structure Field where
  name : String
  required : Bool := false
  nullable : Bool := false
  deriving DecidableEq, Repr

/-- What is wrong at a place of a request. -/
inductive FaultKind where
  | missing
  | noText
  | noObject
  deriving DecidableEq, Repr

def FaultKind.name : FaultKind → String
  | missing => "missing"
  | noText => "string_type"
  | noObject => "model_attributes_type"

structure Fault where
  kind : FaultKind
  place : List String
  deriving DecidableEq, Repr

def Fault.toJson (f : Fault) : Json := .arr [.str f.kind.name, .arr (f.place.map .str)]

/-- What is wrong with a field of a body. -/
def Field.fault? (f : Field) (body : Json) : Option Fault :=
  match body.field? f.name with
  | none => if f.required then some ⟨.missing, ["body", f.name]⟩ else none
  | some (.str _) => none
  | some .null => if f.nullable then none else some ⟨.noText, ["body", f.name]⟩
  | some _ => some ⟨.noText, ["body", f.name]⟩

/-- What is wrong with a body. -/
def faults (fields : List Field) : Option Json → List Fault
  | none | some .null => [⟨.missing, ["body"]⟩]
  | some (.obj fs) => fields.filterMap (·.fault? (.obj fs))
  | some _ => [⟨.noObject, ["body"]⟩]

/-- The text of a field; an empty one if it is not there. -/
def textOf (body : Json) (name : String) : String :=
  match body.field? name with
  | some (.str s) => s
  | _ => ""

end BackendMigration.Service
