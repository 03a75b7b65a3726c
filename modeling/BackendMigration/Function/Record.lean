import BackendMigration.Function.Trigger
import BackendMigration.Source.Block

/-! Functions found in source text, and what they become. -/
namespace BackendMigration

/-- What a trigger listens to. -/
structure TriggerDetail where
  documentPath : Option String := none
  documentEvent : Option String := none
  identityEvent : Option String := none
  blobEvent : Option String := none
  schedule : Option String := none
  topic : Option String := none
  deriving DecidableEq, Repr

/-- A function found in a source file, or listed as deployed. -/
structure FunctionRecord extends TriggerDetail where
  name : String
  kind : TriggerKind
  body : String
  sourceFile : String := ""
  /-- The text by which it was recognized. -/
  rawMatch : String := ""
  /-- The rule that recognized it. -/
  rule : String := ""
  /-- Where it is deployed. -/
  url : Option String := none
  span : Span := ⟨0, 0⟩
  deriving DecidableEq, Repr

/-- Bodies of at most this many characters are matches by accident. -/
def minBodyLength : Nat := 10

/-- A body long enough to be a function's. -/
def FunctionRecord.hasMeaningfulBody (r : FunctionRecord) : Bool :=
  minBodyLength < (Text.strip r.body.toList).length

end BackendMigration
