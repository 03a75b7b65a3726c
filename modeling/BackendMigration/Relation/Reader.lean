import BackendMigration.File.Contents
import BackendMigration.Json.Reader

/-! Reading the file of a relation. -/
namespace BackendMigration.Relation

/-- Why a file cannot be read as records. -/
inductive ReadError where
  | contents (f : File.ContentsFault)
  /-- The text, as far as it is looked at, is no JSON. -/
  | json (f : Json.Fault) (text : Text)
  | noArray (path : String)
  deriving DecidableEq, Repr

def ReadError.message : ReadError → String
  | .contents f => f.message
  | .json f text => f.message text
  | .noArray path => "Relation file " ++ path ++ " does not hold a JSON array"

/-- The file is at fault. Otherwise there is too much in it to keep track of. -/
def ReadError.isOfFile : ReadError → Bool
  | .json f _ => f.cause.category != .depth
  | _ => true

/-- Characters that may stand after the last record of an array that is still open. -/
def isOpenEnd (c : Char) : Bool := c == ',' || c == '\n' || c == ' '

/-- Close an array that is still open. -/
def closed (t : Text) : Text :=
  if t.head? = some '[' ∧ t.getLast? ≠ some ']' then Text.trimEnd isOpenEnd t ++ ['\n', ']'] else t

/-- The records of a text. An empty text has none, and an open array counts as closed. -/
def parse (path : String) (text : Text) : Except ReadError (List Json) :=
  let t := Text.strip text
  if t.isEmpty then .ok []
  else
    match Json.read (closed t) with
    | .error f => .error (.json f (closed t))
    | .ok (.arr records) => .ok records
    | .ok _ => .error (.noArray path)

/-- The records of a relation file. -/
def read (t : File.Tree) (p : File.Path) : Except ReadError (List Json) :=
  match t.readText p with
  | .error f => .error (.contents f)
  | .ok text => parse p.text text

end BackendMigration.Relation
