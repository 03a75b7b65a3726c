import BackendMigration.Text.Blank

/-! Balanced blocks of source text. The search is lexical: delimiters inside strings and comments
count like any other. -/
namespace BackendMigration

/-- A stretch of a text, from one offset up to another. -/
structure Span where
  start : Nat
  stop : Nat
  deriving DecidableEq, Repr

/-- The characters of a span. -/
def Span.slice (s : Span) (t : Text) : Text := (t.drop s.start).take (s.stop - s.start)

namespace Source

/-- A pair of delimiters. -/
structure Delimiters where
  opening : Char
  closing : Char
  deriving DecidableEq, Repr

namespace Delimiters

def braces : Delimiters := ⟨'{', '}'⟩

def parentheses : Delimiters := ⟨'(', ')'⟩

/-- Delimiters are single characters; no other text opens or closes a block. -/
def ofTexts? (opening closing : String) : Option Delimiters :=
  match opening.toList, closing.toList with
  | [o], [c] => some ⟨o, c⟩
  | _, _ => none

end Delimiters

/-- How many characters it takes to close a block that is open `depth` times more than once. -/
def closing? (d : Delimiters) : Nat → Text → Option Nat
  | _, [] => none
  | depth, c :: r =>
    if c = d.opening then (closing? d (depth + 1) r).map (· + 1)
    else if c = d.closing then
      match depth with
      | 0 => some 1
      | depth + 1 => (closing? d depth r).map (· + 1)
    else (closing? d depth r).map (· + 1)

/-- The first block that opens at or after an offset; none if it never closes. -/
def findBlock? (d : Delimiters) (t : Text) (start : Nat) : Option Span :=
  let tail := t.drop start
  let opened := start + (tail.takeWhile (· != d.opening)).length
  match tail.dropWhile (· != d.opening) with
  | [] => none
  | _ :: r => (closing? d 0 r).map fun n => ⟨opened, opened + 1 + n⟩

/-- The text of the first block in braces that opens at or after an offset; empty if there is none
or it never closes. -/
def extractBlock (t : Text) (start : Nat) : Text :=
  match findBlock? .braces t start with
  | some s => s.slice t
  | none => []

/-- The first block in braces of at least `size` characters; empty if there is none. -/
def firstBlockOfSize (size : Nat) : Text → Text
  | [] => []
  | c :: r =>
    match if c = '{' then closing? .braces 0 r else none with
    | some n => if size ≤ n + 1 then (c :: r).take (n + 1) else firstBlockOfSize size r
    | none => firstBlockOfSize size r

/-- The offset after the parenthesis that closes the argument list opened at an offset. -/
def closeOfCall? (t : Text) (opened : Nat) : Option Nat :=
  match t.drop opened with
  | '(' :: r => (closing? .parentheses 0 r).map fun n => opened + 1 + n
  | _ => none

/-- The offset of the last parenthesis still open at the end; `opened` are those open before, the
last one first. -/
def lastOpenFrom? (opened : List Nat) (offset : Nat) : Text → Option Nat
  | [] => opened.head?
  | c :: r =>
    if c = '(' then lastOpenFrom? (offset :: opened) (offset + 1) r
    else if c = ')' then lastOpenFrom? opened.tail (offset + 1) r
    else lastOpenFrom? opened (offset + 1) r

/-- The offset of the last parenthesis that a text leaves open. -/
def lastOpen? (t : Text) : Option Nat := lastOpenFrom? [] 0 t

/-- A block closes within the text. -/
theorem closing?_le {d : Delimiters} {depth n : Nat} {t : Text} (h : closing? d depth t = some n) :
    n ≤ t.length := by
  fun_induction closing? d depth t generalizing n <;> grind [Option.map_eq_some_iff]

end Source
end BackendMigration
