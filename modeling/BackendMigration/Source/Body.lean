import BackendMigration.Pattern.Match
import BackendMigration.Source.Arguments

/-! The body of a function expression. -/
namespace BackendMigration.Source

/-- An arrow, or the keyword of a function expression up to its parameter list. -/
def functionHead : Pattern :=
  .choice [.text "=>",
    .concat [.wordEdge, .text "function", .wordEdge, .many (.one (.noneOf "(")), .text "("]]

/-- The place at an offset. -/
def cursorAt (t : Text) (offset : Nat) : Cursor := (Cursor.start t).advance offset

/-- Where the body of the first function expression in a span has to begin, white space aside: after
an arrow, or after the parameter list of a keyword function. -/
def bodyStart? (t : Text) (span : Span) : Option Nat :=
  match functionHead.search? (cursorAt (t.take span.stop) span.start) with
  | none => none
  | some head =>
    if head.text = "=>".toList then some head.stop else closeOfCall? t (head.stop - 1)

/-- The block of the first function expression in a span: an arrow function or a keyword function.
Empty if there is none, if its body is no block or if the block does not end within the span. -/
def functionBody (t : Text) (span : Span) : Text :=
  match bodyStart? t span with
  | none => []
  | some after =>
    let tail := (t.take span.stop).drop after
    let opened := after + (tail.takeWhile Text.isBlank).length
    match tail.dropWhile Text.isBlank with
    | '\x7b' :: _ =>
      match findBlock? .braces t opened with
      | some block => if block.stop ≤ span.stop then block.slice t else []
      | none => []
    | _ => []

/-- The search for a body goes past the end of the text: the span does, and nothing but white space
stands where the body has to be. -/
def leavesText (t : Text) (span : Span) : Bool :=
  t.length < span.stop && (bodyStart? t span).any fun after => (t.drop after).all Text.isBlank

/-- The offset of a character is past the end of the text. -/
structure PastEnd where
  deriving DecidableEq, Repr

/-- The body of a function expression in a span of any size. -/
def functionBodyIn (t : Text) (span : Span) : Except PastEnd Text :=
  if leavesText t span then .error ⟨⟩ else .ok (functionBody t span)

/-- A span within the text has a body or none. -/
theorem functionBodyIn_of_le {t : Text} {span : Span} (h : span.stop ≤ t.length) :
    functionBodyIn t span = .ok (functionBody t span) := by
  have : leavesText t span = false := by
    simp only [leavesText, Bool.and_eq_false_iff, decide_eq_false_iff_not]
    exact .inl (by omega)
  simp [functionBodyIn, this]

end BackendMigration.Source
