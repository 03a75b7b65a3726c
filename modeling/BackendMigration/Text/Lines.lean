import BackendMigration.Text.Search

/-! Lines of a text, and its line ends. -/
namespace BackendMigration.Text

/-- A carriage return, alone or before a line feed, becomes a line feed. -/
def normalizeNewlines : Text → Text
  | '\r' :: '\n' :: r => '\n' :: normalizeNewlines r
  | '\r' :: r => '\n' :: normalizeNewlines r
  | c :: r => c :: normalizeNewlines r
  | [] => []

/-- The pieces between line feeds. -/
def lines (t : Text) : List Text := splitBy (· == '\n') t

/-- A character that ends a line in the widest sense: line and page breaks, the file, group and
record separators, and the line and paragraph separators. -/
def endsLine (c : Char) : Bool :=
  let n := c.toNat
  (10 ≤ n && n ≤ 13) || (28 ≤ n && n ≤ 30) || n == 0x85 || n == 0x2028 || n == 0x2029

/-- The lines between line ends of the widest sense, without a last empty one. -/
def wideLines (t : Text) : List Text :=
  let pieces := splitBy endsLine (normalizeNewlines t)
  if pieces.getLast? = some [] then pieces.dropLast else pieces

/-- The line and column of an offset, both from one. -/
def lineColumn (t : Text) (offset : Nat) : Nat × Nat :=
  let before := t.take offset
  (before.count '\n' + 1, (before.reverse.takeWhile (· != '\n')).length + 1)

/-- Put spaces before every line that is not blank. -/
def indent (spaces : Nat) (t : Text) : Text :=
  join ['\n'] <| (lines t).map fun line =>
    if allBlank line then line else List.replicate spaces ' ' ++ line

/-- No carriage return is left. -/
theorem not_mem_normalizeNewlines (t : Text) : '\r' ∉ normalizeNewlines t := by
  fun_induction normalizeNewlines t <;> simp_all [eq_comm]

/-- Indenting by nothing changes nothing. -/
@[simp] theorem indent_zero (t : Text) : indent 0 t = t := by
  have : (fun line : Text => if allBlank line then line else List.replicate 0 ' ' ++ line) = id := by
    funext line; simp
  simp only [indent, this, List.map_id]
  exact join_splitBy '\n' t

end BackendMigration.Text
