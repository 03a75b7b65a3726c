import BackendMigration.Json.Extent
import BackendMigration.Json.Lexeme
import BackendMigration.Json.Printer
import BackendMigration.Proofs.Decimal.Notation
import BackendMigration.Proofs.Text.Utf8

/-! The tokens of printed JSON. -/
namespace BackendMigration.Json

open Text (hex isHighHalf isLowHalf unitChar)
open Decimal (takeDigits takeFraction takeExponent IsDigits IsWhole IsFraction IsExponent Parts)

/-! Numbers. -/

/-- A text with which no number goes on. -/
def EndsNumber (rest : Text) : Prop :=
  ∀ c, rest.head? = some c → c.isDigit = false ∧ c ≠ '.' ∧ c ≠ 'e' ∧ c ≠ 'E'

theorem takeDigits_append {ds rest : Text} (h : ∀ c ∈ ds, c.isDigit = true)
    (hr : ∀ c, rest.head? = some c → c.isDigit = false) : takeDigits (ds ++ rest) = (ds, rest) := by
  have hstop : rest.takeWhile Char.isDigit = [] ∧ rest.dropWhile Char.isDigit = rest := by
    cases rest with
    | nil => exact ⟨rfl, rfl⟩
    | cons c r => simp [hr c rfl]
  rw [takeDigits, List.takeWhile_append_of_pos h, List.dropWhile_append_of_pos h, hstop.1, hstop.2,
    List.append_nil]

theorem takeFraction_append {fraction rest : Text} (h : IsFraction fraction)
    (hr : ∀ c, rest.head? = some c → c.isDigit = false ∧ c ≠ '.') :
    takeFraction (fraction ++ rest) = (fraction.drop 1, rest) := by
  rcases h with rfl | ⟨ds, hds, rfl⟩
  · cases rest with
    | nil => rfl
    | cons c r =>
      have := (hr c rfl).2
      simp [takeFraction, this]
  · have htake := takeDigits_append hds.2 fun c hc => (hr c hc).1
    obtain ⟨d, r, rfl⟩ := List.exists_cons_of_ne_nil hds.1
    simp only [takeFraction, List.cons_append] at htake ⊢
    rw [htake]
    rfl

theorem takeExponent_append {exponent rest : Text} (h : IsExponent exponent)
    (hr : EndsNumber rest) :
    takeExponent (exponent ++ rest) = ((takeExponent exponent).1, rest) ∧
      (takeExponent exponent).1.isNone = exponent.isEmpty := by
  rcases h with rfl | ⟨sign, ds, hsign, hds, rfl⟩
  · cases rest with
    | nil => exact ⟨rfl, rfl⟩
    | cons c r =>
      have := hr c rfl
      exact ⟨by simp [takeExponent, this], rfl⟩
  · have htake := takeDigits_append hds.2 fun c hc => (hr c hc).1
    have hall : takeDigits (ds ++ []) = (ds, []) := takeDigits_append hds.2 fun c hc => nomatch hc
    rw [List.append_nil] at hall
    obtain ⟨d, r, rfl⟩ := List.exists_cons_of_ne_nil hds.1
    have hval (t : Text) : Decimal.takeSign (sign :: t) = (sign == '-', t) := by
      rcases hsign with rfl | rfl <;> rfl
    simp only [takeExponent, List.cons_append, true_or, if_true, hval] at htake ⊢
    rw [htake, hall]
    exact ⟨rfl, rfl⟩

/-- The token of a number of these parts. -/
def numberToken (negative : Bool) (whole fraction exponent : Text) : Token :=
  if fraction.isEmpty && exponent.isEmpty then wholeToken negative whole
  else .scalar (float (Decimal.Literal.toDouble
    ⟨negative, whole, fraction.drop 1, (takeExponent exponent).1.getD 0⟩))

variable {t whole fraction exponent rest : Text}

theorem head?_not_digit (hf : IsFraction fraction) (he : IsExponent exponent) (hr : EndsNumber rest) :
    ∀ c, (fraction ++ (exponent ++ rest)).head? = some c → c.isDigit = false := by
  intro c hc
  rcases hf with rfl | ⟨ds, -, rfl⟩
  · rcases he with rfl | ⟨sign, ds, -, -, rfl⟩
    · exact (hr c hc).1
    · obtain rfl : 'e' = c := by simpa using hc
      decide
  · obtain rfl : '.' = c := by simpa using hc
    decide

theorem wholeDigits_append (h : Parts t whole fraction exponent) (hr : EndsNumber rest) :
    wholeDigits (t ++ rest) = whole ∧ whole.isEmpty = false := by
  have hhead := head?_not_digit h.isFraction h.isExponent hr
  rw [h.eq, List.append_assoc, List.append_assoc]
  rcases h.isWhole with rfl | ⟨hdigits, h0⟩
  · exact ⟨rfl, rfl⟩
  · obtain ⟨c, r, rfl⟩ := List.exists_cons_of_ne_nil hdigits.1
    have htake := takeDigits_append hdigits.2 hhead
    refine ⟨?_, rfl⟩
    rw [List.cons_append] at htake ⊢
    unfold wholeDigits
    split
    · rename_i hc
      simp only [List.cons.injEq] at hc
      exact absurd (congrArg some hc.1) h0
    · rw [htake]

/-- A number begins with a digit. -/
theorem exists_digit_of_parts (h : Parts t whole fraction exponent) :
    ∃ c r, t = c :: r ∧ c.isDigit = true := by
  rw [h.eq]
  rcases h.isWhole with rfl | ⟨hdigits, -⟩
  · exact ⟨'0', _, rfl, by decide⟩
  · obtain ⟨c, r, rfl⟩ := List.exists_cons_of_ne_nil hdigits.1
    exact ⟨c, _, rfl, hdigits.2 c List.mem_cons_self⟩

theorem takeMinus_append (h : Parts t whole fraction exponent) (negative : Bool) :
    takeMinus ((if negative then ['-'] else []) ++ t ++ rest) = (negative, t ++ rest) := by
  cases negative with
  | true => rfl
  | false =>
    obtain ⟨c, r, rfl, hc⟩ := exists_digit_of_parts h
    simp only [Bool.false_eq_true, if_false, List.nil_append, List.cons_append]
    unfold takeMinus
    split
    · rename_i he
      obtain rfl := (List.cons.inj he).1
      exact absurd hc (by decide)
    · rfl

theorem readNumber?_append (h : Parts t whole fraction exponent) (negative : Bool)
    (hr : EndsNumber rest) :
    readNumber? ((if negative then ['-'] else []) ++ t ++ rest) =
      some (numberToken negative whole fraction exponent,
        ((if negative then ['-'] else []) ++ t).length) := by
  obtain ⟨hwhole, hne⟩ := wholeDigits_append h hr
  have hdrop : (t ++ rest).drop whole.length = fraction ++ (exponent ++ rest) := by
    rw [h.eq, List.append_assoc, List.append_assoc, List.drop_left]
  have hfraction : takeFraction (fraction ++ (exponent ++ rest)) =
      (fraction.drop 1, exponent ++ rest) := by
    refine takeFraction_append h.isFraction fun c hc => ?_
    refine ⟨head?_not_digit (.inl rfl) h.isExponent hr c hc, ?_⟩
    rcases h.isExponent with rfl | ⟨sign, ds, -, -, rfl⟩
    · exact (hr c hc).2.1
    · obtain rfl : 'e' = c := by simpa using hc
      decide
  obtain ⟨hexponent, hnone⟩ := takeExponent_append h.isExponent hr
  have hempty : (fraction.drop 1).isEmpty = fraction.isEmpty := by
    rcases h.isFraction with rfl | ⟨ds, hds, rfl⟩
    · rfl
    · simpa using hds.1
  unfold readNumber?
  simp only [takeMinus_append h negative, hwhole, hne, Bool.false_eq_true, if_false, hdrop, hfraction,
    hexponent, hnone, hempty, numberToken, Option.some.injEq, Prod.mk.injEq, true_and,
    List.length_append]
  omega

/-! Tokens in a text. -/

/-- In front of a text, another one is read as a token. -/
def Spells (t : Text) (token : Token) (rest : Text) : Prop :=
  ∀ offset, lexemesFrom 0 offset (t ++ rest) =
    ⟨token, offset⟩ :: lexemesFrom 0 (offset + t.length) rest

/-- The reading goes on after the token. -/
def Token.isPlain : Token → Bool
  | faulty _ | stray => false
  | _ => true

theorem lexemesFrom_append (t rest : Text) (offset : Nat) :
    lexemesFrom t.length offset (t ++ rest) = lexemesFrom 0 (offset + t.length) rest := by
  induction t generalizing offset with
  | nil => rfl
  | cons c r ih =>
    have := ih (offset + 1)
    simp only [List.length_cons, List.cons_append, lexemesFrom] at this ⊢
    rw [this, Nat.add_assoc, Nat.add_comm 1]

theorem lexemesFrom_blank {t : Text} (h : ∀ c ∈ t, isSpace c = true) (rest : Text) (offset : Nat) :
    lexemesFrom 0 offset (t ++ rest) = lexemesFrom 0 (offset + t.length) rest := by
  induction t generalizing offset with
  | nil => rfl
  | cons c r ih =>
    have := ih (fun d hd => h d (List.mem_cons_of_mem c hd)) (offset + 1)
    simp only [List.length_cons, List.cons_append, lexemesFrom, h c List.mem_cons_self, if_true]
    rw [this, Nat.add_assoc, Nat.add_comm 1]

theorem spells_of_readToken {c : Char} {r : Text} {token : Token} (hspace : isSpace c = false)
    (hplain : token.isPlain = true)
    (h : ∀ offset, readToken offset c (r ++ rest) = (token, r.length + 1)) :
    Spells (c :: r) token rest := by
  intro offset
  simp only [List.cons_append, lexemesFrom, hspace, Bool.false_eq_true, if_false, h]
  split
  · rename_i he
    obtain rfl := (Prod.mk.inj he).1
    cases hplain
  · rename_i he
    obtain rfl := (Prod.mk.inj he).1
    cases hplain
  · rename_i he
    obtain ⟨rfl, rfl⟩ := Prod.mk.inj he
    rw [Nat.add_sub_cancel, lexemesFrom_append, List.length_cons, Nat.add_assoc, Nat.add_comm 1]

theorem spells_openArray (rest : Text) : Spells ['['] .openArray rest :=
  spells_of_readToken (by decide) rfl fun _ => rfl

theorem spells_closeArray (rest : Text) : Spells [']'] .closeArray rest :=
  spells_of_readToken (by decide) rfl fun _ => rfl

theorem spells_openObject (rest : Text) : Spells ['\x7b'] .openObject rest :=
  spells_of_readToken (by decide) rfl fun _ => rfl

theorem spells_closeObject (rest : Text) : Spells ['\x7d'] .closeObject rest :=
  spells_of_readToken (by decide) rfl fun _ => rfl

theorem spells_comma (rest : Text) : Spells [','] .comma rest :=
  spells_of_readToken (by decide) rfl fun _ => rfl

theorem spells_colon (rest : Text) : Spells [':'] .colon rest :=
  spells_of_readToken (by decide) rfl fun _ => rfl

theorem spells_null (rest : Text) : Spells "null".toList (.scalar null) rest :=
  spells_of_readToken (by decide) rfl fun _ => rfl

theorem spells_bool (b : Bool) (rest : Text) :
    Spells (if b then "true".toList else "false".toList) (.scalar (bool b)) rest := by
  cases b with
  | true => exact spells_of_readToken (by decide) rfl fun _ => rfl
  | false => exact spells_of_readToken (by decide) rfl fun _ => rfl

/-- What a number begins with begins no name and no sign of punctuation. -/
theorem readToken_of_number {c : Char} {r : Text} {found : Token × Nat}
    (hc : c.isDigit = true ∨ c = '-' ∧ ∃ d s, r = d :: s ∧ d.isDigit = true)
    (h : readNumber? (c :: r) = some found) (offset : Nat) : readToken offset c r = found := by
  have hne : ∀ d, d.isDigit = false → d ≠ '-' → c ≠ d := by
    rintro d hd hd' rfl
    rcases hc with hc | ⟨rfl, -⟩
    · rw [hd] at hc
      cases hc
    · exact hd' rfl
  have hletter (d : Char) (s : Text) (hd : d.isDigit = false) (hd' : d ≠ '-') :
      List.isPrefixOf (d :: s) (c :: r) = false := by
    simp [List.isPrefixOf, (hne d hd hd').symm]
  have hinfinity (s : Text) : List.isPrefixOf ('-' :: 'I' :: s) (c :: r) = false := by
    rcases hc with hc | ⟨-, d, s, rfl, hd⟩
    · have : '-' ≠ c := by
        rintro rfl
        revert hc
        decide
      simp [List.isPrefixOf, this]
    · have : 'I' ≠ d := by
        rintro rfl
        revert hd
        decide
      simp [List.isPrefixOf, this]
  have hnamed : named.find? (fun p => p.1.toList.isPrefixOf (c :: r)) = none := by
    simp only [named, List.find?_eq_none, List.forall_mem_cons, Bool.not_eq_true]
    exact ⟨hletter _ _ (by decide) (by decide), hletter _ _ (by decide) (by decide),
      hletter _ _ (by decide) (by decide), hletter _ _ (by decide) (by decide),
      hletter _ _ (by decide) (by decide), hinfinity _, fun _ h => absurd h List.not_mem_nil⟩
  unfold readToken
  split
  all_goals try exact absurd rfl (hne _ (by decide) (by decide))
  rw [hnamed, h]

theorem spells_number (h : Parts t whole fraction exponent) (negative : Bool)
    (hr : EndsNumber rest) : Spells ((if negative then ['-'] else []) ++ t)
      (numberToken negative whole fraction exponent) rest := by
  have hplain : (numberToken negative whole fraction exponent).isPlain = true := by
    unfold numberToken wholeToken
    split
    · split <;> rfl
    · rfl
  have hread := readNumber?_append h negative hr
  obtain ⟨d, s, rfl, hd⟩ := exists_digit_of_parts h
  cases negative with
  | true =>
    exact spells_of_readToken (by decide) hplain
      (readToken_of_number (.inr ⟨rfl, d, s ++ rest, rfl, hd⟩) hread)
  | false =>
    refine spells_of_readToken ?_ hplain (readToken_of_number (.inl hd) hread)
    have hne : ∀ c, c.isDigit = false → (d == c) = false := by
      intro c hc
      simp only [beq_eq_false_iff_ne]
      rintro rfl
      rw [hd] at hc
      cases hc
    simp [isSpace, hne ' ' (by decide), hne '\t' (by decide), hne '\n' (by decide),
      hne '\r' (by decide)]

/-! Whole numbers. -/

theorem toList_toString_int (n : Int) : (toString n).toList =
    (if n < 0 then ['-'] else []) ++ Nat.toDigits 10 n.natAbs := by
  cases n with
  | ofNat m => simp [toString, Int.repr, Nat.repr]
  | negSucc m => 
    simp [toString, Int.repr, Nat.repr]

theorem digitValue?_of_isDigit {c : Char} (h : c.isDigit = true) :
    Text.digitValue? c = some (c.toNat - 48) := by
  have hlt : c.toNat < 128 := by
    simp only [Char.isDigit, Bool.and_eq_true, decide_eq_true_eq] at h
    have := h.2
    rw [UInt32.le_iff_toNat_le] at this
    change c.val.toNat < 128
    have h9 : '9'.val.toNat = 57 := rfl
    omega
  rw [Text.digitValue?, if_pos hlt, if_pos h]

theorem digitsToNat_toDigits (n : Nat) : Text.digitsToNat (Nat.toDigits 10 n) = n := by
  have hfold (ds : List Char) (h : ∀ c ∈ ds, c.isDigit = true) (k : Nat) :
      ds.foldl (fun n c => 10 * n + (Text.digitValue? c).getD 0) k = Nat.ofDigitChars 10 ds k := by
    induction ds generalizing k with
    | nil => rfl
    | cons c r ih =>
      rw [List.foldl_cons, ih fun d hd => h d (List.mem_cons_of_mem c hd),
        digitValue?_of_isDigit (h c List.mem_cons_self)]
      rfl
  rw [Text.digitsToNat, hfold _ (Decimal.isDigits_toDigits n).2, Nat.ofDigitChars_ten_toDigits]

theorem spells_int {n : Int} (h : isOverlong n = false) (hr : EndsNumber rest) :
    Spells (toString n).toList (.scalar (int n)) rest := by
  have hparts : Parts (Nat.toDigits 10 n.natAbs) (Nat.toDigits 10 n.natAbs) [] [] :=
    ⟨by simp, Decimal.isWhole_toDigits _, .inl rfl, .inl rfl⟩
  have hread : Text.readDigits (Nat.toDigits 10 n.natAbs) = .ok n.natAbs := by
    rw [Text.readDigits_eq_ok_iff]
    exact ⟨by simpa [isOverlong] using h, digitsToNat_toDigits _⟩
  have hspells := spells_number hparts (decide (n < 0)) hr
  have htoken : numberToken (decide (n < 0)) (Nat.toDigits 10 n.natAbs) [] [] = .scalar (int n) := by
    simp only [numberToken, List.isEmpty_nil, Bool.and_self, if_true, wholeToken, hread,
      decide_eq_true_eq]
    congr 2
    split <;> omega
  rw [htoken] at hspells
  rw [toList_toString_int]
  simpa using hspells

/-! Doubles. -/

/-- The double that the written form of a double is read as. -/
def reread (x : Double) : Json :=
  match readNumber? (Decimal.renderWith Decimal.spelled x) with
  | some (.scalar v, _) => v
  | _ => float x

theorem spells_float (x : Double) (hr : EndsNumber rest) :
    Spells (Decimal.renderWith Decimal.spelled x) (.scalar (reread x)) rest := by
  cases x with
  | nan => exact spells_of_readToken (by decide) rfl fun _ => rfl
  | infinite negative =>
    cases negative with
    | true => exact spells_of_readToken (by decide) rfl fun _ => rfl
    | false => exact spells_of_readToken (by decide) rfl fun _ => rfl
  | finite negative m e =>
    obtain ⟨whole, fraction, exponent, hparts, hne⟩ :=
      Decimal.exists_parts_renderMagnitude Decimal.spelled (.finite negative m e)
    have hspells := spells_number hparts negative hr
    have hnothing : EndsNumber [] := fun c hc => nomatch hc
    have hread := readNumber?_append hparts negative hnothing
    obtain ⟨y, hy⟩ : ∃ y, numberToken negative whole fraction exponent = .scalar y := by
      refine ⟨_, if_neg ?_⟩
      simpa [-not_and, Classical.not_and_iff_not_or_not] using hne
    have hreread : reread (.finite negative m e) = y := by
      rw [List.append_nil, hy] at hread
      unfold reread
      rw [Decimal.renderWith, hread]
    rw [hreread, ← hy]
    exact hspells

/-! Strings. -/

theorem hexValue?_digitChar {n : Nat} (h : n < 16) : hexValue? n.digitChar = some n := by
  have all : ∀ n < 16, hexValue? n.digitChar = some n := by decide
  exact all n h

theorem hexQuad?_hex {n : Nat} (h : n < 0x10000) :
    ∃ a b c d, hex 4 n = [a, b, c, d] ∧ hexQuad? a b c d = some n := by
  have hquad : hexQuad? (n / 0x1000).digitChar (n / 0x100 % 16).digitChar (n / 16 % 16).digitChar
      (n % 16).digitChar = some n := by
    have hvalue : (((n / 0x1000) * 16 + n / 0x100 % 16) * 16 + n / 16 % 16) * 16 + n % 16 = n := by
      omega
    simp only [hexQuad?, hexValue?_digitChar (show n / 0x1000 < 16 by omega),
      hexValue?_digitChar (Nat.mod_lt _ (show 0 < 16 by omega)), Option.bind_eq_bind,
      Option.bind_some, hvalue]
    rfl
  refine ⟨_, _, _, _, ?_, hquad⟩
  have hbase : 1 < 16 := by omega
  have hzero : Nat.digitChar 0 = '0' := rfl
  -- The digits of a small number are filled up with zeros.
  by_cases h1 : n < 16
  · have hsmall : n / 0x1000 = 0 ∧ n / 0x100 = 0 ∧ n / 16 = 0 ∧ n % 16 = n := by omega
    rw [hex, Nat.toDigits_of_lt_base h1, hsmall.1, hsmall.2.1, hsmall.2.2.1, hsmall.2.2.2]
    rfl
  have hdiv : n / 16 / 16 = n / 0x100 ∧ n / 0x100 / 16 = n / 0x1000 := by omega
  by_cases h2 : n / 16 < 16
  · have hsmall : n / 0x1000 = 0 ∧ n / 0x100 = 0 ∧ n / 16 % 16 = n / 16 := by omega
    rw [hex, Nat.toDigits_of_base_le hbase (by omega), Nat.toDigits_of_lt_base h2, hsmall.1,
      hsmall.2.1, hsmall.2.2]
    rfl
  by_cases h3 : n / 0x100 < 16
  · have hsmall : n / 0x1000 = 0 ∧ n / 0x100 % 16 = n / 0x100 := by omega
    rw [hex, Nat.toDigits_of_base_le hbase (by omega), Nat.toDigits_of_base_le hbase (by omega),
      hdiv.1, Nat.toDigits_of_lt_base h3, hsmall.1, hsmall.2]
    rfl
  · rw [hex, Nat.toDigits_of_base_le hbase (by omega), Nat.toDigits_of_base_le hbase (by omega),
      hdiv.1, Nat.toDigits_of_base_le hbase (by omega), hdiv.2,
      Nat.toDigits_of_lt_base (show n / 0x1000 < 16 by omega)]
    rfl

/-- Inside a string a text is read as a character, whatever follows. -/
def ReadsAs (t : Text) (c : Char) : Prop :=
  ∃ ps, (∀ (start offset : Nat) (r : Text), r ≠ [] → readString start offset (t ++ r) =
      ps.foldr consPiece (readString start (offset + t.length) r)) ∧
    ∀ qs, joinPieces (ps ++ qs) = c :: joinPieces qs

theorem readString_unitEscape {n : Nat} (hn : n < 0x10000) (start offset : Nat) {r : Text}
    (hr : r ≠ []) : readString start offset (unitEscape n ++ r) =
      consPiece (.unit n) (readString start (offset + (unitEscape n).length) r) := by
  obtain ⟨x, r, rfl⟩ := List.exists_cons_of_ne_nil hr
  obtain ⟨a, b, c, d, hhex, hquad⟩ := hexQuad?_hex hn
  have hescape : unitEscape n = ['\\', 'u', a, b, c, d] := by rw [unitEscape, hhex]
  simp [hescape, readString, hquad]

theorem joinPieces_unit {n : Nat} (h : isHighHalf n = false) (ps : List Piece) :
    joinPieces (.unit n :: ps) = unitChar n :: joinPieces ps := by
  cases ps with
  | nil => rfl
  | cons p ps =>
    cases p with
    | char c => rfl
    | unit m => simp only [joinPieces, h, Bool.false_and, Bool.false_eq_true, if_false]

/-- A character that is no half of a pair is read back from its escapes. -/
theorem readsAs_charEscape {c : Char} (hc : Text.half? c = none) : ReadsAs (charEscape c) c := by
  have hvalid : c.toNat < 0xD800 ∨ 0xDFFF < c.toNat ∧ c.toNat < 0x110000 := c.valid
  by_cases hplane : c.toNat < 0x10000
  · have hhalf : isHighHalf c.toNat = false ∧ isLowHalf c.toNat = false := by
      simp only [isHighHalf, isLowHalf, Bool.and_eq_false_imp, decide_eq_true_eq, decide_eq_false_iff_not]
      omega
    have hchar : unitChar c.toNat = c := by simp [unitChar, hhalf]
    refine ⟨[.unit c.toNat], fun start offset r hr => ?_, fun qs => ?_⟩
    · rw [charEscape, if_pos hplane]
      exact readString_unitEscape hplane start offset hr
    · rw [List.singleton_append, joinPieces_unit hhalf.1, hchar]
  · obtain ⟨high, low, hhigh, hlow, hescape, hpair⟩ : ∃ high low, isHighHalf high = true ∧
        isLowHalf low = true ∧ charEscape c = unitEscape high ++ unitEscape low ∧
        Text.pairChar high low = c := by
      refine ⟨0xD800 + (c.toNat - 0x10000) / 0x400, 0xDC00 + (c.toNat - 0x10000) % 0x400, ?_, ?_, ?_, ?_⟩
      · simp only [isHighHalf, Bool.and_eq_true, decide_eq_true_eq]
        omega
      · simp only [isLowHalf, Bool.and_eq_true, decide_eq_true_eq]
        omega
      · rw [charEscape, if_neg hplane, hc]
      · have hvalue : 0x10000 + (0xD800 + (c.toNat - 0x10000) / 0x400 - 0xD800) * 0x400 +
            (0xDC00 + (c.toNat - 0x10000) % 0x400 - 0xDC00) = c.toNat := by omega
        rw [Text.pairChar, hvalue, Char.ofNat_toNat]
    simp only [isHighHalf, isLowHalf, Bool.and_eq_true, decide_eq_true_eq] at hhigh hlow
    refine ⟨[.unit high, .unit low], fun start offset r hr => ?_, fun qs => ?_⟩
    · have hne : unitEscape low ++ r ≠ [] := by simp [unitEscape]
      rw [hescape, List.append_assoc, readString_unitEscape (by omega) _ _ hne,
        readString_unitEscape (by omega) _ _ hr, List.length_append, Nat.add_assoc]
      rfl
    · simp [joinPieces, isHighHalf, isLowHalf, hhigh, hlow, hpair]

/-- A text that is written in ASCII is read back if it has no halves of pairs. -/
theorem readsAs_writtenChar {ascii : Bool} {c : Char} (h : ascii = true → Text.half? c = none) :
    ReadsAs (writtenChar ascii c) c := by
  have hshort {t : Text} (hread : ∀ (start offset : Nat) (x : Char) (r : Text),
      readString start offset (t ++ x :: r) =
        consPiece (.char c) (readString start (offset + t.length) (x :: r))) : ReadsAs t c := by
    refine ⟨[.char c], fun start offset r hr => ?_, fun _ => rfl⟩
    obtain ⟨x, r, rfl⟩ := List.exists_cons_of_ne_nil hr
    exact hread start offset x r
  unfold writtenChar
  iterate 7
    split
    · rename_i hc
      subst hc
      exact hshort fun _ _ _ _ => rfl
  split
  · rename_i hc
    apply readsAs_charEscape
    rcases hc with hc | ⟨hascii, -⟩
    · rw [Text.half?, if_neg (by omega)]
    · exact h hascii
  · rename_i hquote hslash _ _ _ _ _ hc
    refine hshort fun start offset x r => ?_
    have hge : ¬c.toNat < 0x20 := fun hlt => hc (.inl hlt)
    simp [readString, hslash, hge]

theorem readString_written {ascii : Bool} {s : Text} (h : ascii = true → s.NoHalves)
    (start offset : Nat) (rest : Text) :
    ∃ ps, readString start offset (s.flatMap (writtenChar ascii) ++ '"' :: rest) =
        .ok (ps, offset + (s.flatMap (writtenChar ascii)).length + 1) ∧ joinPieces ps = s := by
  induction s generalizing offset with
  | nil => exact ⟨[], rfl, rfl⟩
  | cons c s ih =>
    have hc : ascii = true → Text.half? c = none := fun ha => (Text.noHalves_cons.1 (h ha)).1
    obtain ⟨front, hread, hjoin⟩ := readsAs_writtenChar hc
    obtain ⟨ps, hps, rfl⟩ := ih (fun ha => (Text.noHalves_cons.1 (h ha)).2)
      (offset + (writtenChar ascii c).length)
    have hcons (ps : List Piece) (stop : Nat) :
        front.foldr consPiece (.ok (ps, stop)) = .ok (front ++ ps, stop) := by
      clear hread hjoin
      induction front with
      | nil => rfl
      | cons p front ih => rw [List.foldr_cons, ih, consPiece, List.cons_append]
    refine ⟨front ++ ps, ?_, hjoin ps⟩
    rw [List.flatMap_cons, List.append_assoc, hread _ _ _ (by simp), hps, hcons, List.length_append,
      ← Nat.add_assoc]

theorem spells_string {ascii : Bool} {s : Text} (h : ascii = true → s.NoHalves) (rest : Text) :
    Spells (writtenString ascii s) (.text s) rest := by
  refine spells_of_readToken (by decide) rfl fun offset => ?_
  rw [List.append_assoc, List.singleton_append]
  obtain ⟨ps, hps, hjoin⟩ := readString_written h offset (offset + 1) rest
  unfold readToken
  simp only
  rw [hps]
  simp only [hjoin, List.length_append, List.length_singleton, Prod.mk.injEq, true_and]
  omega

end BackendMigration.Json
