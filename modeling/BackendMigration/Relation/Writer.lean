import BackendMigration.Document.Encoding
import BackendMigration.File.Contents
import BackendMigration.Json.Printer
import BackendMigration.Json.Reader

/-! Relations: their names, and writing records to one file for each of them, as JSON arrays that grow. -/
namespace BackendMigration.Relation

/-- A character of relation names: a letter or digit of ASCII. -/
def isNameChar (c : Char) : Bool := c.isAlphanum

/-- Every character that is no letter or digit becomes an underscore. -/
def sanitize (name : String) : String :=
  String.ofList (name.toList.map fun c => if isNameChar c then c else '_')

/-- A sanitized name stays as it is. -/
theorem sanitize_sanitize (name : String) : sanitize (sanitize name) = sanitize name := by
  simp only [sanitize, String.toList_ofList, List.map_map]
  congr 1
  apply List.map_congr_left
  intro c _
  by_cases h : isNameChar c = true <;> simp [h]

/-- Sanitizing keeps the length. -/
theorem length_sanitize (name : String) : (sanitize name).length = name.length := by
  simp [sanitize, ← String.length_toList]

/-! Files of records. -/

/-- Why a record is not written. -/
inductive WriteError where
  | finalized
  | record (e : Document.EncodeError)
  | file (f : File.ContentsFault)
  deriving DecidableEq, Repr

def WriteError.message : WriteError → String
  | .finalized => "Writer already finalized"
  | .record e => e.message
  | .file f => f.message

/-- A writer: where its files are, how records are laid out, and how many records each relation has
received in this run. -/
structure Writer where
  directory : File.Path
  indent : Option Nat
  counts : Keyed Nat := []
  finalized : Bool := false
  deriving DecidableEq, Repr

namespace Writer

/-- The file of a relation. -/
def path (w : Writer) (relation : String) : File.Path :=
  w.directory.join (.ofText (relation ++ ".json"))

/-- The last part of the dotted name of a type. -/
def plainType (type : String) : String :=
  String.ofList ((Text.splitBy (· == '.') type.toList).getLast?.getD [])

/-- Where records have several lines, a fault tells the plain name of a type. -/
def plainFault (indent : Option Nat) (e : Document.EncodeError) : Document.EncodeError :=
  match indent, e with
  | some _, .badKey type => .badKey (plainType type)
  | _, e => e

/-- The text of JSON in a file. There, the array of the records is open around it. -/
def jsonText (indent : Option Nat) (j : Json) : Except Document.EncodeError Text :=
  match j.excess? (Json.maxDepth - 1) with
  | some x => .error (.excess x)
  | none => .ok (Json.render ⟨indent, false⟩ j)

/-- The text of a record in a file. -/
def recordText (indent : Option Nat) (record : Document.Value) :
    Except Document.EncodeError Text :=
  (record.toJson.mapError (plainFault indent)).bind (jsonText indent)

/-- What follows a write to the file of a relation that then has `n` records. -/
def counted (w : Writer) (relation : String) (n : Nat) :
    Except File.ContentsFault Unit × File.Tree → Except WriteError Writer × File.Tree
  | (.ok (), t) => (.ok { w with counts := Keyed.set relation n w.counts }, t)
  | (.error f, t) => (.error (.file f), t)

/-- Add a record to a relation. The first one of a run replaces the file. -/
def write (w : Writer) (t : File.Tree) (relation : String) (record : Document.Value) :
    Except WriteError Writer × File.Tree :=
  if w.finalized then (.error .finalized, t)
  else
    match recordText w.indent record with
    | .error e => (.error (.record e), t)
    | .ok text =>
      match Keyed.get? relation w.counts with
      | none =>
        match t.makeDirectories w.directory with
        | .error f => (.error (.file (.file f)), t)
        | .ok t => w.counted relation 1 (t.writeText (w.path relation) ('[' :: '\n' :: text))
      | some n =>
        w.counted relation (n + 1) (t.appendText (w.path relation) (',' :: '\n' :: text))

/-- Begin a new run. -/
def reset (w : Writer) : Writer := { w with counts := [], finalized := false }

/-- Close the arrays of relations. -/
def closeAll (w : Writer) (t : File.Tree) : List String → Except File.ContentsFault Unit × File.Tree
  | [] => (.ok (), t)
  | r :: rest =>
    match t.appendText (w.path r) "\n]\n".toList with
    | (.error f, t) => (.error f, t)
    | (.ok (), t) => closeAll w t rest

/-- Write an empty array for each of some relations. -/
def emptyAll (w : Writer) (t : File.Tree) : List String → Except File.ContentsFault Unit × File.Tree
  | [] => (.ok (), t)
  | r :: rest =>
    match t.writeText (w.path r) "[]\n".toList with
    | (.error f, t) => (.error f, t)
    | (.ok (), t) => emptyAll w t rest

/-- End a run: close every array, and write an empty one for each relation that received nothing.
Only a run that has not ended ends. -/
def finalize (w : Writer) (t : File.Tree) (relations : List String) :
    Except WriteError Writer × File.Tree :=
  if w.finalized then (.ok w, t)
  else
    match w.closeAll t (Keyed.keys w.counts) with
    | (.error f, t) => (.error (.file f), t)
    | (.ok (), t) =>
      match relations.filter fun r => !Keyed.has r w.counts with
      | [] => (.ok { w with finalized := true }, t)
      | empty =>
        match t.makeDirectories w.directory with
        | .error f => (.error (.file (.file f)), t)
        | .ok t =>
          match w.emptyAll t empty with
          | (.error f, t) => (.error (.file f), t)
          | (.ok (), t) => (.ok { w with finalized := true }, t)

/-- After the end of a run nothing is written. -/
theorem write_finalized {w : Writer} (h : w.finalized = true) (t : File.Tree) (relation : String)
    (record : Document.Value) : w.write t relation record = (.error .finalized, t) := by
  simp [write, h]

/-- A run ends once. -/
theorem finalize_finalized {w : Writer} (h : w.finalized = true) (t : File.Tree)
    (relations : List String) : w.finalize t relations = (.ok w, t) := by
  simp [finalize, h]

end Writer
end BackendMigration.Relation
