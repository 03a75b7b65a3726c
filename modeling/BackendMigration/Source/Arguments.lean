import BackendMigration.Source.Block

/-! The arguments of a call, split at its commas. -/
namespace BackendMigration.Source

/-- A quote mark of a string or template literal. -/
def isQuote (c : Char) : Bool := c == '\'' || c == '"' || c == '`'

def isOpening (c : Char) : Bool := c == '(' || c == '[' || c == '\x7b'

def isClosing (c : Char) : Bool := c == ')' || c == ']' || c == '\x7d'

/-- Split the inside of an argument list at the commas outside of brackets and literals. A literal
ends at its quote mark unless a backslash stands right before it. -/
def splitSpans (quote : Option Char) (depth : Int) (previous : Char) (start offset : Nat) :
    Text → List Span
  | [] => [⟨start, offset⟩]
  | c :: r =>
    match quote with
    | some q =>
      splitSpans (if c = q ∧ previous ≠ '\\' then none else some q) depth c start (offset + 1) r
    | none =>
      if isQuote c then splitSpans (some c) depth c start (offset + 1) r
      else if isOpening c then splitSpans none (depth + 1) c start (offset + 1) r
      else if isClosing c then splitSpans none (depth - 1) c start (offset + 1) r
      else if c = ',' ∧ depth = 0 then
        ⟨start, offset⟩ :: splitSpans none depth c (offset + 1) (offset + 1) r
      else splitSpans none depth c start (offset + 1) r

/-- The spans of the arguments that are not blank, for a call whose parenthesis opens at an offset;
none if it never closes. -/
def argumentSpans? (t : Text) (opened : Nat) : Option (List Span) :=
  (closeOfCall? t opened).map fun close =>
    let inner := (t.drop (opened + 1)).take (close - opened - 2)
    (splitSpans none 0 '(' (opened + 1) (opened + 1) inner).filter
      fun s => !Text.allBlank (s.slice t)

/-- Split an argument text at the commas outside of brackets and literals; each literal ends at the
next quote mark of its kind. `current` is the argument read so far, backwards. -/
def splitTextsFrom (quote : Option Char) (depth : Int) (current : Text) : Text → List Text
  | [] => [Text.strip current.reverse]
  | c :: r =>
    match quote with
    | some q => splitTextsFrom (if c = q then none else some q) depth (c :: current) r
    | none =>
      if isQuote c then splitTextsFrom (some c) depth (c :: current) r
      else if isOpening c then splitTextsFrom none (depth + 1) (c :: current) r
      else if isClosing c then splitTextsFrom none (depth - 1) (c :: current) r
      else if c = ',' ∧ depth = 0 then
        Text.strip current.reverse :: splitTextsFrom none depth [] r
      else splitTextsFrom none depth (c :: current) r

/-- The arguments of an argument text, without the white space around them; a blank text has
none. -/
def argumentTexts (t : Text) : List Text :=
  match splitTextsFrom none 0 [] t with
  | [[]] => []
  | parts => parts

theorem splitSpans_ne_nil (quote : Option Char) (depth : Int) (previous : Char)
    (start offset : Nat) (t : Text) : splitSpans quote depth previous start offset t ≠ [] := by
  fun_induction splitSpans quote depth previous start offset t <;> simp_all

theorem splitTextsFrom_ne_nil (quote : Option Char) (depth : Int) (current t : Text) :
    splitTextsFrom quote depth current t ≠ [] := by
  fun_induction splitTextsFrom quote depth current t <;> simp_all

end BackendMigration.Source
