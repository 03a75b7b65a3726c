import BackendMigration.Document.Integer
import BackendMigration.Document.Value
import BackendMigration.File.Tree

/-! Settings read from the entries of a map. A setting is any value; most have a use for texts
only. -/
namespace BackendMigration.Document.Entries

/-- The value under a key; without the key, a default. -/
def setting (data : Entries) (key : String) (default : Value) : Value :=
  (data.get? key).getD default

/-- The whole number under a key; without the key, a default. -/
def integerSetting (data : Entries) (key : String) (default : Int) : Except IntegerFault Int :=
  match data.get? key with
  | none => .ok default
  | some v => v.integer

/-- Whether the value under a key counts as yes; without the key, a default. -/
def truthSetting (data : Entries) (key : String) (default : Bool) : Bool :=
  match data.get? key with
  | none => default
  | some v => !v.isFalsy

/-- The value under a key; where there is none that counts as yes, what the environment has. -/
def settingOr (data : Entries) (key : String) (other : Option String) : Value :=
  match (data.get? key).filter fun v => !v.isFalsy with
  | some v => v
  | none => (other.map .text).getD .null

end BackendMigration.Document.Entries

/-! Values as places among files. -/
namespace BackendMigration.Document

/-- Why a value is no place. -/
inductive PlaceFault where
  /-- The value is of a kind that names no place. -/
  | kind
  /-- The number of an open file is out of range. -/
  | tooGreat
  | tooSmall
  deriving DecidableEq, Repr

def PlaceFault.message : PlaceFault → String
  | kind => "a path or the number of an open file is required"
  | tooGreat => "fd is greater than maximum"
  | tooSmall => "fd is less than minimum"

/-- The greatest number of an open file. -/
def maxOpenFile : Int := 2147483647

/-- The path that a value names. A number is that of an open file, which has no path. -/
def Value.path? : Value → Except PlaceFault (Option File.Path)
  | text s => .ok (some (.literal s))
  | bytes _ b => .ok (((Utf8.decode ⟨b.toArray⟩).toOption).map .literal)
  | int n =>
    if maxOpenFile < n then .error .tooGreat
    else if n < -maxOpenFile - 1 then .error .tooSmall
    else .ok none
  | bool _ => .ok none
  | _ => .error .kind

/-- Whether a value names a directory. -/
def Value.namesDirectory (v : Value) (t : File.Tree) : Except PlaceFault Bool :=
  v.path?.map fun p => p.any t.isDirectory

/-- Whether a value names a file or a directory. -/
def Value.namesFile (v : Value) (t : File.Tree) : Except PlaceFault Bool :=
  v.path?.map fun p => p.any t.hasPath

@[simp] theorem Value.namesDirectory_text (s : String) (t : File.Tree) :
    (text s).namesDirectory t = .ok (t.isDirectory (.literal s)) := rfl

end BackendMigration.Document
