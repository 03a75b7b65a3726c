import BackendMigration.Text.Blank

/-! Finding, replacing and splitting at fixed texts. -/
namespace BackendMigration.Text

/-- The offset of the first occurrence of a text. -/
def indexOf? (needle : Text) : Text → Option Nat
  | [] => if needle.isEmpty then some 0 else none
  | c :: r =>
    if needle.isPrefixOf (c :: r) then some 0 else (indexOf? needle r).map (· + 1)

/-- One text occurs in the other. -/
def occursIn (needle t : Text) : Bool := (indexOf? needle t).isSome

/-- Copy a text, putting `new` for each occurrence of `old`; `skip` characters of the last
occurrence are still to be passed over. -/
def replaceFrom (old new : Text) : Nat → Text → Text
  | _, [] => []
  | skip + 1, _ :: r => replaceFrom old new skip r
  | 0, c :: r =>
    if !old.isEmpty && old.isPrefixOf (c :: r) then
      new ++ replaceFrom old new (old.length - 1) r
    else c :: replaceFrom old new 0 r

/-- Replace every occurrence, from the left. -/
def replace (old new t : Text) : Text := replaceFrom old new 0 t

/-- The pieces between the characters of a class; there is always at least one. -/
def splitBy (cut : Char → Bool) : Text → List Text
  | [] => [[]]
  | c :: r =>
    if cut c then [] :: splitBy cut r
    else match splitBy cut r with
      | [] => [[c]]
      | piece :: pieces => (c :: piece) :: pieces

/-- Put a separator between pieces. -/
def join (separator : Text) : List Text → Text
  | [] => []
  | [t] => t
  | t :: rest => t ++ separator ++ join separator rest

/-- A text's first piece up to a separator, and what follows the separator. -/
def cutAt? (separator : Char) : Text → Option (Text × Text)
  | [] => none
  | c :: r => if c = separator then some ([], r) else (cutAt? separator r).map fun p => (c :: p.1, p.2)

/-- Latin capitals become small letters; the dotted capital I keeps its dot as a mark. -/
def lowerLatin (t : Text) : Text :=
  t.flatMap fun c =>
    if c.toNat = 0x130 then ['i', Char.ofNat 0x307]
    else if c.toNat = 0x212A then ['k']
    else [c.toLower]

theorem splitBy_ne_nil (cut : Char → Bool) (t : Text) : splitBy cut t ≠ [] := by
  cases t with
  | nil => simp [splitBy]
  | cons c r =>
    by_cases h : cut c = true
    · simp [splitBy, h]
    · cases hr : splitBy cut r <;> simp [splitBy, h, hr]

/-- Without a character to cut at there is one piece. -/
theorem splitBy_of_not_cut {cut : Char → Bool} {t : Text} (h : ∀ c ∈ t, cut c = false) :
    splitBy cut t = [t] := by
  induction t with
  | nil => rfl
  | cons c r ih =>
    have hc := h c List.mem_cons_self
    have hr := ih fun c hc => h c (List.mem_cons_of_mem _ hc)
    simp [splitBy, hc, hr]

/-- Joining the pieces with the separator restores the text. -/
theorem join_splitBy (s : Char) (t : Text) : join [s] (splitBy (· == s) t) = t := by
  induction t with
  | nil => rfl
  | cons c r ih =>
    have hr := splitBy_ne_nil (· == s) r
    by_cases h : c = s
    · subst h
      cases hs : splitBy (· == c) r with
      | nil => exact absurd hs hr
      | cons p ps =>
        rw [hs] at ih
        simp [splitBy, hs, join, ih]
    · cases hs : splitBy (· == s) r with
      | nil => exact absurd hs hr
      | cons p ps =>
        cases ps with
        | nil => simp_all [splitBy, join]
        | cons q qs => simp_all [splitBy, join]

end BackendMigration.Text
