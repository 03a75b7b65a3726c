import BackendMigration.Text.Blank
import BackendMigration.Text.Printable

/-! Halves of pairs that stand alone, and the quoted form of a text in messages. No character is half of
a surrogate pair, so a text holds such a half as a private-use character of the last plane. -/
namespace BackendMigration.Text

/-- A code unit that opens a pair. -/
def isHighHalf (unit : Nat) : Bool := 0xD800 ≤ unit && unit < 0xDC00

/-- A code unit that closes a pair. -/
def isLowHalf (unit : Nat) : Bool := 0xDC00 ≤ unit && unit < 0xE000

/-- The character of a pair. -/
def pairChar (high low : Nat) : Char :=
  Char.ofNat (0x10000 + (high - 0xD800) * 0x400 + (low - 0xDC00))

/-- The character of a code unit; for half of a pair, the one that holds it. -/
def unitChar (unit : Nat) : Char :=
  if isHighHalf unit || isLowHalf unit then Char.ofNat (0x100000 + unit) else Char.ofNat unit

/-- The half of a pair that a character holds. -/
def half? (c : Char) : Option Nat :=
  if 0x10D800 ≤ c.toNat ∧ c.toNat < 0x10E000 then some (c.toNat - 0x100000) else none

/-- A half is held as it is. -/
theorem half?_unitChar {unit : Nat} (h : (isHighHalf unit || isLowHalf unit) = true) :
    half? (unitChar unit) = some unit := by
  have hr : 0xD800 ≤ unit ∧ unit < 0xE000 := by
    simp only [isHighHalf, isLowHalf, Bool.or_eq_true, Bool.and_eq_true, decide_eq_true_eq] at h
    omega
  have hv : (0x100000 + unit).isValidChar := Or.inr (by omega)
  have hn : (Char.ofNat (0x100000 + unit)).toNat = 0x100000 + unit := by
    rw [Char.ofNat, dif_pos hv]
    rfl
  simp only [unitChar, h, if_true, half?, hn]
  rw [if_pos (by omega), Nat.add_sub_cancel_left]

/-! Quotes. -/

/-- The lower-case hexadecimal digits of a number, at least `width` of them. -/
def hex (width n : Nat) : Text :=
  let digits := Nat.toDigits 16 n
  List.replicate (width - digits.length) '0' ++ digits

/-- Single quotes, unless the text holds a single quote and no double quote. -/
def quoteMark (t : Text) : Char := if t.contains '\'' && !t.contains '"' then '"' else '\''

/-- A character inside the given quotes. -/
def quotedChar (mark c : Char) : Text :=
  if c = mark || c = '\\' then ['\\', c]
  else if c = '\t' then ['\\', 't']
  else if c = '\n' then ['\\', 'n']
  else if c = '\r' then ['\\', 'r']
  else if let some unit := half? c then '\\' :: 'u' :: hex 4 unit
  else if isPrintable c then [c]
  else if c.toNat < 0x100 then '\\' :: 'x' :: hex 2 c.toNat
  else if c.toNat < 0x10000 then '\\' :: 'u' :: hex 4 c.toNat
  else '\\' :: 'U' :: hex 8 c.toNat

/-- A text in quotes, with escapes for the quote, the backslash and what cannot be shown. -/
def quoted (t : Text) : Text :=
  let mark := quoteMark t
  mark :: (t.flatMap (quotedChar mark) ++ [mark])

end BackendMigration.Text
