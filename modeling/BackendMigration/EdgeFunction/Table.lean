import BackendMigration.Text.Search

/-! Tables for the documents of a path. -/
namespace BackendMigration.EdgeFunction

/-- The table of documents whose path names no collection. -/
def defaultTable : String := "your_table"

/-- A letter, a digit or an underscore, of ASCII. -/
def isIdentifierChar (c : Char) : Bool := c.isAlphanum || c == '_'

/-- The segments of a path that are not empty. -/
def pathSegments (path : Text) : List Text :=
  (Text.splitBy (· == '/') path).filter fun s => !s.isEmpty

/-- Every other item, from the first. -/
def everyOther {α : Type} : List α → List α
  | [] => []
  | [a] => [a]
  | a :: _ :: r => a :: everyOther r

/-- The table for the documents of a path: the last collection that is no wildcard. -/
def deriveTable (path : Option String) : String :=
  let collections := everyOther (pathSegments (path.getD "").toList)
  match collections.reverse.find? fun s => s.head? != some '\x7b' with
  | some s => String.ofList (s.map fun c => if isIdentifierChar c then c else '_')
  | none => defaultTable

end BackendMigration.EdgeFunction
