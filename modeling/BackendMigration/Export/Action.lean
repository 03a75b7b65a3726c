import BackendMigration.Document.Encoding
import BackendMigration.Export.Walk

/-! Hooks given by actions on the record at hand. -/
namespace BackendMigration.Export

open Document (Value Entries)

/-- An action of a hook. -/
inductive Action where
  | set (field : String) (value : Value)
  | delete (field : String)
  /-- Add a record to a relation. -/
  | emit (relation : String) (record : Value)
  /-- Add the record at hand to a relation. -/
  | emitSelf (relation : String)
  | replace (record : Value)
  | drop
  | dropIf (field : String) (value : Value)
  | fail (message : String)
  deriving Repr

/-- How the record at hand is used by an action that only a map allows. -/
inductive FieldUse where
  | assignment
  | deletion
  | lookup
  deriving DecidableEq, Repr

/-- Why an action fails. -/
inductive ActionFault where
  | missing (field : String)
  /-- The record at hand is no map. -/
  | shape (use : FieldUse) (record : Value)
  deriving Repr

/-- What is said of a record that is no map. -/
def shapeMessage : FieldUse → Value → String
  | .lookup, v => "'" ++ v.typeName ++ "' object has no attribute 'get'"
  | _, v@(.list _) | _, v@(.bytes .growable _) =>
    v.typeName ++ " indices must be integers or slices, not str"
  | _, .bytes .view _ => "cannot modify read-only memory"
  | .assignment, v => "'" ++ v.typeName ++ "' object does not support item assignment"
  | .deletion, v => "'" ++ v.typeName ++ "' object does not support item deletion"

def ActionFault.message : ActionFault → String
  | missing field => String.ofList (Text.quoted field.toList)
  | shape use record => shapeMessage use record

/-- The fields of a record, for some use. -/
def fieldsFor (use : FieldUse) : Value → Except ActionFault Entries
  | .map entries => .ok entries
  | record => .error (.shape use record)

/-- Remove a field that is there. -/
def removeField (field : String) (record : Value) : Except ActionFault Value := do
  let entries ← fieldsFor .deletion record
  if (entries.get? field).isSome then
    return .map (entries.filter fun e => e.1.text? != some field)
  else .error (.missing field)

/-- A record added before those of a run. -/
def HookRun.after (relation : String) (record : Value) (run : HookRun) : HookRun :=
  { run with emissions := (relation, record) :: run.emissions }

/-- A run that goes on with a result, or fails. -/
def HookRun.orFail {α : Type} (step : Except ActionFault α) (go : α → HookRun) : HookRun :=
  match step with
  | .ok a => go a
  | .error f => ⟨[], .fail f.message⟩

/-- What actions make of a record. One that is null in the end is dropped. -/
def runActions : List Action → Value → HookRun
  | [], .null => ⟨[], .drop⟩
  | [], record => ⟨[], .keep record⟩
  | .set field value :: rest, record =>
    .orFail (fieldsFor .assignment record) fun es => runActions rest (.map (es.set field value))
  | .delete field :: rest, record => .orFail (removeField field record) (runActions rest)
  | .emit relation added :: rest, record => (runActions rest record).after relation added
  | .emitSelf relation :: rest, record => (runActions rest record).after relation record
  | .replace record :: rest, _ => runActions rest record
  | .drop :: _, _ => ⟨[], .drop⟩
  | .dropIf field value :: rest, record =>
    .orFail (fieldsFor .lookup record) fun es =>
      if ((es.get? field).getD .null).agrees value then ⟨[], .drop⟩ else runActions rest record
  | .fail message :: _, _ => ⟨[], .fail message⟩

/-- The hook of a list of actions. -/
def Hook.ofActions (actions : List Action) : Hook := fun entries => runActions actions (.map entries)

/-- Nothing comes after a drop. -/
@[simp] theorem runActions_drop (rest : List Action) (record : Value) :
    runActions (.drop :: rest) record = ⟨[], .drop⟩ := rfl

/-- Without actions a map is kept as it is. -/
@[simp] theorem ofActions_nil (entries : Entries) :
    Hook.ofActions [] entries = ⟨[], .keep (.map entries)⟩ := rfl

end BackendMigration.Export
