import BackendMigration.Text.Search
import BackendMigration.Text.Utf8

/-! The path in the address of a request. -/
namespace BackendMigration.Service

/-- The value of a hexadecimal digit. -/
def hexDigit? (c : Char) : Option Nat :=
  if c.isDigit then some (c.toNat - '0'.toNat)
  else if 'a' ≤ c ∧ c ≤ 'f' then some (c.toNat - 'a'.toNat + 10)
  else if 'A' ≤ c ∧ c ≤ 'F' then some (c.toNat - 'A'.toNat + 10)
  else none

/-- The byte that two hexadecimal digits write. -/
def escapedByte? (a b : Char) : Option UInt8 := do
  return UInt8.ofNat (16 * (← hexDigit? a) + (← hexDigit? b))

/-- The text of escaped bytes, which are given backwards; bytes that are no text become one mark. -/
def escapedText (bytes : List UInt8) : Text :=
  match Utf8.decode ⟨bytes.reverse.toArray⟩ with
  | .ok s => s.toList
  | .error _ => [Char.ofNat 0xFFFD]

/-- Put a character before a text that follows it, after the escaped bytes seen so far. -/
def flush (bytes : List UInt8) (t : Text) : Text :=
  if bytes.isEmpty then t else escapedText bytes ++ t

/-- Read the escapes of a text: a percent sign and two hexadecimal digits are a byte. `bytes` are
the bytes seen last, backwards. -/
def unescapeFrom (bytes : List UInt8) : Text → Text
  | '%' :: a :: b :: r =>
    match escapedByte? a b with
    | some byte => unescapeFrom (byte :: bytes) r
    | none => flush bytes ('%' :: unescapeFrom [] (a :: b :: r))
  | c :: r => flush bytes (c :: unescapeFrom [] r)
  | [] => flush bytes []
termination_by t => t.length

/-- Read the escapes of a text. -/
def unescape (t : Text) : Text := unescapeFrom [] t

/-- Drop the host in front of a path; there is one after two slashes. -/
def dropHost : Text → Text
  | '/' :: '/' :: r => r.dropWhile (· != '/')
  | t => t

/-- The names on a path without the points among them: one point stays where it is, and two lead
back. `before` are the names before, the last one first. -/
def withoutPoints (before : List Text) : List Text → List Text
  | [] => before.reverse
  | name :: rest =>
    if name = ['.'] then withoutPoints before rest
    else if name = ['.', '.'] then
      withoutPoints (if before.length ≤ 1 ∧ before.all List.isEmpty then before else before.tail) rest
    else withoutPoints (name :: before) rest

/-- The path of an address from its first slash on, with escapes read twice: once where the address
is taken apart and once where the request arrives. -/
def pathOf (address : String) : Text :=
  let path := dropHost (address.toList.takeWhile fun c => c != '?' && c != '#')
  let names := Text.splitBy (· == '/') ('/' :: path.dropWhile (· == '/'))
  unescape (unescape (Text.join ['/'] (withoutPoints [] names)))

/-- A text without escapes reads as itself. -/
theorem unescapeFrom_of_not_mem {t : Text} (h : '%' ∉ t) : unescapeFrom [] t = t := by
  induction t with
  | nil => simp [unescapeFrom, flush]
  | cons c r ih =>
    simp only [List.mem_cons, not_or] at h
    unfold unescapeFrom
    split
    · rename_i he
      exact absurd (List.cons.inj he).1.symm h.1
    · rename_i he
      obtain ⟨rfl, rfl⟩ := List.cons.inj he
      simp [flush, ih h.2]
    · rename_i he
      cases he

end BackendMigration.Service
