import BackendMigration.Pattern.Class

/-! Text patterns: characters, sequence, ordered choice, greedy repetition, named parts and
conditions on the neighbouring characters. -/
namespace BackendMigration

/-- A pattern. Choice prefers its left side, repetition takes as much as it can. -/
inductive Pattern where
  | nothing
  | one (k : CharClass)
  | seq (first second : Pattern)
  | alt (left right : Pattern)
  | many (p : Pattern)
  /-- A part whose text is kept under a name. -/
  | part (name : String) (p : Pattern)
  /-- A word character on exactly one side. -/
  | wordEdge
  /-- The character before, if any, is not in the class. -/
  | notAfter (k : CharClass)
  /-- The character that follows is in the class; it is not taken. -/
  | before (k : CharClass)
  /-- The text ends here. -/
  | atEnd
  deriving DecidableEq, Repr

namespace Pattern

/-- One pattern after another. -/
def concat (ps : List Pattern) : Pattern := ps.foldr seq nothing

/-- The first of several patterns that leads to a match. -/
def choice : List Pattern → Pattern
  | [] => one CharClass.never
  | [p] => p
  | p :: ps => alt p (choice ps)

/-- A fixed text. -/
def text (s : String) : Pattern := concat (s.toList.map fun c => one (.only c))

/-- A fixed text, in capitals or small letters. -/
def textAnyCase (s : String) : Pattern := concat (s.toList.map fun c => one (.anyCase c))

/-- Once or not at all, once by preference. -/
def optional (p : Pattern) : Pattern := alt p nothing

/-- At least once. -/
def repeated (p : Pattern) : Pattern := seq p (many p)

/-- White space, also none. -/
def blanks : Pattern := many (one .blank)

/-- White space, at least one. -/
def someBlanks : Pattern := repeated (one .blank)

/-- Word characters, at least one. -/
def word : Pattern := repeated (one .word)

/-- Any of the three quote marks. -/
def quoteMark : Pattern := one (.oneOf "'\"`")

/-- A text between quote marks, kept under a name. -/
def quotedPart (name : String) (inner : Pattern) : Pattern :=
  concat [quoteMark, part name inner, quoteMark]

/-- Text without quote marks, at least one character. -/
def unquoted : Pattern := repeated (one (.noneOf "'\"`"))

/-- A member access: the point, with white space around it. -/
def point : Pattern := concat [blanks, text ".", blanks]

/-- An opening parenthesis after white space. -/
def opening : Pattern := seq blanks (text "(")

/-- An argument list without inner parentheses to close. -/
def flatArguments : Pattern := concat [text "(", many (one (.noneOf ")")), text ")"]

end Pattern
end BackendMigration
