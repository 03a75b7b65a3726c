import BackendMigration.Export.Walk

/-! Hooks from the files of a directory, one for each relation. -/
namespace BackendMigration.Export

/-- The ending of hook files; the relation's name stands before it. -/
def hookEnding : String := ".py"

/-- The relation of a hook file; files that start with an underscore are none. -/
def hookRelation? (name : String) : Option String :=
  if hookEnding.toList.isSuffixOf name.toList && name.toList.head? != some '_' then
    some (File.Path.stem name)
  else none

/-- Why no hooks are taken from a directory. -/
inductive HooksFault where
  | notFound (directory : String)
  /-- The directory's name is no text. -/
  | kind
  | file (f : File.Fault)
  deriving DecidableEq, Repr

def HooksFault.message : HooksFault → String
  | notFound directory => "Hooks directory not found: " ++ directory
  | kind => "the name of a directory must be a text"
  | file f => f.message

/-- The names in a directory, in order. -/
def namesInOrder (t : File.Tree) (p : File.Path) : List String :=
  (t.childNames p).mergeSort fun a b => a ≤ b

/-- The hooks that the files of a directory define, in the order of the files' names. `hook?` tells
what a file defines. -/
def hooksBelow (t : File.Tree) (p : File.Path) (hook? : ByteArray → Option Hook) : Keyed Hook :=
  (namesInOrder t p).filterMap fun name => do
    let relation ← hookRelation? name
    let bytes ← (t.read (p.child name)).toOption
    return (relation, ← hook? bytes)

/-- The hooks of a directory that a setting names; none if the setting counts as no. -/
def hooksIn (t : File.Tree) (directory : Document.Value) (hook? : ByteArray → Option Hook) :
    Except HooksFault (Keyed Hook) :=
  if directory.isFalsy then .ok []
  else
    match directory.text? with
    | none => .error .kind
    | some directory =>
      let p := File.Path.ofText directory
      match t.resolve p with
      | .error .nameTooLong => .error (.file ⟨.nameTooLong, p.text⟩)
      | _ => if t.isDirectory p then .ok (hooksBelow t p hook?) else .error (.notFound directory)

/-- Without a directory there are no hooks. -/
@[simp] theorem hooksIn_null (t : File.Tree) (hook? : ByteArray → Option Hook) :
    hooksIn t .null hook? = .ok [] := rfl

end BackendMigration.Export
