/-! White space, and its removal from the ends of a text. -/
namespace BackendMigration

/-- A text, one character per code point. -/
abbrev Text := List Char

namespace Text

/-- White space of every script, and the four ASCII separators. -/
def isBlank (c : Char) : Bool :=
  let n := c.toNat
  (9 ≤ n && n ≤ 13) || (28 ≤ n && n ≤ 32) || n == 0x85 || n == 0xA0 || n == 0x1680 ||
    (0x2000 ≤ n && n ≤ 0x200A) || n == 0x2028 || n == 0x2029 || n == 0x202F || n == 0x205F ||
    n == 0x3000

/-- Every white-space character of the core library is blank. -/
theorem isBlank_of_isWhitespace (c : Char) (h : c.isWhitespace = true) : isBlank c = true := by
  simp only [Char.isWhitespace, Bool.or_eq_true, decide_eq_true_eq] at h
  rcases h with ((h | h) | h) | h <;> subst h <;> decide

/-- The code points of white space from U+0080 on. -/
def wideBlanks : List Nat :=
  [0x85, 0xA0, 0x1680, 0x2000, 0x2001, 0x2002, 0x2003, 0x2004, 0x2005, 0x2006, 0x2007, 0x2008, 0x2009,
    0x200A, 0x2028, 0x2029, 0x202F, 0x205F, 0x3000]

/-- What holds of no control character and of no wide blank holds of no white space. -/
theorem eq_false_of_isBlank {f : Char → Bool} (hlow : ∀ n ≤ 32, f (Char.ofNat n) = false)
    (hwide : ∀ n ∈ wideBlanks, f (Char.ofNat n) = false) {c : Char} (h : isBlank c = true) :
    f c = false := by
  rw [← Char.ofNat_toNat c]
  simp only [isBlank, Bool.or_eq_true, Bool.and_eq_true, decide_eq_true_eq, beq_iff_eq] at h
  by_cases hc : c.toNat ≤ 32
  · exact hlow _ hc
  · apply hwide
    simp only [wideBlanks, List.mem_cons, List.not_mem_nil, or_false]
    omega

/-- Remove the characters of a class from the front. -/
def trimStart (drop : Char → Bool) (t : Text) : Text := t.dropWhile drop

/-- Remove the characters of a class from the back. -/
def trimEnd (drop : Char → Bool) (t : Text) : Text := (t.reverse.dropWhile drop).reverse

/-- Remove the characters of a class from both ends. -/
def trim (drop : Char → Bool) (t : Text) : Text := trimEnd drop (trimStart drop t)

/-- Remove white space from both ends. -/
def strip (t : Text) : Text := trim isBlank t

/-- A text of white space only. -/
def allBlank (t : Text) : Bool := t.all isBlank

@[simp] theorem trimStart_nil (p : Char → Bool) : trimStart p [] = [] := rfl

@[simp] theorem trimEnd_nil (p : Char → Bool) : trimEnd p [] = [] := rfl

/-- Trimming at the back leaves a front part of the text. -/
theorem trimEnd_isPrefix (p : Char → Bool) (t : Text) : trimEnd p t <+: t := by
  have h := List.dropWhile_suffix (l := t.reverse) p
  simpa [trimEnd] using List.reverse_prefix.2 h

/-- Nothing is left of a text exactly when all of it is in the class. -/
theorem trimStart_eq_nil_iff (p : Char → Bool) (t : Text) :
    trimStart p t = [] ↔ ∀ c ∈ t, p c = true := by
  induction t with
  | nil => simp
  | cons c r ih => by_cases h : p c = true <;> simp_all [trimStart]

end Text
end BackendMigration
