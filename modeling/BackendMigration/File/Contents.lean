import BackendMigration.File.Tree
import BackendMigration.Text.Lines

/-! Texts in files. -/
namespace BackendMigration.File

/-- Why the text of a file is not read or not written. -/
inductive ContentsFault where
  | file (f : Fault)
  | encoding (f : Utf8.Fault)
  | unwritable (u : Utf8.Unwritable)
  deriving DecidableEq, Repr

def ContentsFault.message : ContentsFault → String
  | .file f => f.message
  | .encoding f => f.message
  | .unwritable u => u.message

/-- The text that bytes write, with line feeds as its only line ends. -/
def textOfBytes (bytes : ByteArray) : Except ContentsFault Text :=
  match Utf8.decode bytes with
  | .error f => .error (.encoding f)
  | .ok s => .ok (Text.normalizeNewlines s.toList)

namespace Tree

/-- The text of a file. -/
def readText (t : Tree) (p : Path) : Except ContentsFault Text :=
  match t.read p with
  | .error f => .error (.file f)
  | .ok bytes => textOfBytes bytes

/-- The text of the file at a path that is taken as it stands. -/
def readTextAt (t : Tree) (path : String) : Except ContentsFault Text :=
  match pathCause? path with
  | some cause => .error (.file ⟨cause, path⟩)
  | none =>
    match t.read (.literal path) with
    | .error f => .error (.file { f with path })
    | .ok bytes => textOfBytes bytes

/-- Write a text into a file. One that has no bytes leaves the file empty. -/
def writeText (t : Tree) (p : Path) (text : Text) : Except ContentsFault Unit × Tree :=
  let bytes := Utf8.encode text
  match t.write p (bytes.toOption.getD .empty) with
  | .error f => (.error (.file f), t)
  | .ok t' => (bytes.mapError .unwritable |>.map fun _ => (), t')

/-- Add a text at the end of a file. One that has no bytes adds nothing. -/
def appendText (t : Tree) (p : Path) (text : Text) : Except ContentsFault Unit × Tree :=
  let bytes := Utf8.encode text
  match t.append p (bytes.toOption.getD .empty) with
  | .error f => (.error (.file f), t)
  | .ok t' => (bytes.mapError .unwritable |>.map fun _ => (), t')

end Tree

end BackendMigration.File
