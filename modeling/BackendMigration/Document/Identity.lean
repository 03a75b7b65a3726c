import BackendMigration.Document.Value

/-! The field that holds the id of a document. -/
namespace BackendMigration.Document

/-- The names for the id; the first whose field has no value holds it. -/
def identityFields : List String := ["firestore_id", "firestoreid", "original_id", "originalid"]

/-- The field has no value: it is missing, or its value counts as no. -/
def isFree (entries : Entries) (name : String) : Bool :=
  match entries.get? name with
  | none => true
  | some v => v.isFalsy

/-- Store the id of a document, and name the field that holds it. -/
def assignIdentity (entries : Entries) (id : String) : Option String × Entries :=
  match identityFields.find? (isFree entries) with
  | some name => (some name, entries.set name (.text id))
  | none => (none, entries)

/-- Nothing changes when no field is free. -/
theorem assignIdentity_of_no_free {entries : Entries} {id : String}
    (h : ∀ name ∈ identityFields, isFree entries name = false) :
    assignIdentity entries id = (none, entries) := by
  have : identityFields.find? (isFree entries) = none := by
    simpa [List.find?_eq_none] using h
  simp [assignIdentity, this]

end BackendMigration.Document
