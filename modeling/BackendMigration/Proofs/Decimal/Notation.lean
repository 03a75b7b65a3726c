import BackendMigration.Decimal.Notation

/-! The written form of a double is that of a number: whole digits without a zero in front, then a
fraction, an exponent or both. -/
namespace BackendMigration.Decimal

/-- Digits, at least one. -/
def IsDigits (t : List Char) : Prop := t ≠ [] ∧ ∀ c ∈ t, c.isDigit = true

/-- The digits of a whole number: a zero alone, or digits that do not begin with a zero. -/
def IsWhole (t : List Char) : Prop := t = ['0'] ∨ IsDigits t ∧ t.head? ≠ some '0'

/-- A fraction with its point, or nothing. -/
def IsFraction (t : List Char) : Prop := t = [] ∨ ∃ ds, IsDigits ds ∧ t = '.' :: ds

/-- An exponent with its sign, or nothing. -/
def IsExponent (t : List Char) : Prop :=
  t = [] ∨ ∃ sign ds, (sign = '+' ∨ sign = '-') ∧ IsDigits ds ∧ t = 'e' :: sign :: ds

/-- The parts of a written number without its sign. -/
structure Parts (t whole fraction exponent : List Char) : Prop where
  eq : t = whole ++ (fraction ++ exponent)
  isWhole : IsWhole whole
  isFraction : IsFraction fraction
  isExponent : IsExponent exponent

theorem IsDigits.append_left {s t : List Char} (hs : ∀ c ∈ s, c.isDigit = true) (ht : IsDigits t) :
    IsDigits (s ++ t) := by
  refine ⟨by simp [ht.1], fun c hc => ?_⟩
  rcases List.mem_append.1 hc with hc | hc
  · exact hs c hc
  · exact ht.2 c hc

theorem isDigit_of_mem_replicate {n : Nat} {c : Char} (h : c ∈ List.replicate n '0') :
    c.isDigit = true := by
  obtain rfl := List.eq_of_mem_replicate h
  decide

theorem isDigits_zero : IsDigits ['0'] :=
  ⟨List.cons_ne_nil _ _, List.forall_mem_singleton.2 rfl⟩

theorem isDigits_toDigits (n : Nat) : IsDigits (Nat.toDigits 10 n) :=
  ⟨Nat.toDigits_ne_nil, fun _ hc => Nat.isDigit_of_mem_toDigits (by omega) (by omega) hc⟩

/-- Only zero is written with a zero in front. -/
theorem head?_toDigits {n : Nat} (h : n ≠ 0) : (Nat.toDigits 10 n).head? ≠ some '0' := by
  induction n using Nat.strongRecOn with
  | ind n ih =>
    by_cases hn : n < 10
    · have small : ∀ k < 10, k ≠ 0 → k.digitChar ≠ '0' := by decide
      simpa [Nat.toDigits_of_lt_base hn] using small n hn h
    · have hrest : n / 10 ≠ 0 := by omega
      have hhead := ih (n / 10) (by omega) hrest
      rw [Nat.toDigits_of_base_le (by omega) (by omega), List.head?_append]
      obtain ⟨c, r, hc⟩ := List.exists_cons_of_ne_nil (Nat.toDigits_ne_nil (n := n / 10) (b := 10))
      rw [hc] at hhead ⊢
      exact hhead

theorem isWhole_toDigits (n : Nat) : IsWhole (Nat.toDigits 10 n) := by
  by_cases h : n = 0
  · subst h
    exact .inl (Nat.toDigits_zero 10)
  · exact .inr ⟨isDigits_toDigits n, head?_toDigits h⟩

/-- Digits that end in zeros keep their first one when these are dropped. -/
theorem isDigits_trimZeros {t : List Char} (h : IsDigits t) (h0 : t.head? ≠ some '0') :
    IsDigits (trimZeros t) ∧ (trimZeros t).head? ≠ some '0' := by
  obtain ⟨c, r, rfl⟩ := List.exists_cons_of_ne_nil h.1
  have hc : (c == '0') = false := by simpa using h0
  have hsplit : trimZeros (c :: r) = c :: trimZeros r := by
    unfold trimZeros
    rw [List.reverse_cons, List.dropWhile_append]
    split
    · rename_i hnil
      rw [List.isEmpty_iff] at hnil
      simp [hc, hnil]
    · simp
  rw [hsplit]
  refine ⟨⟨List.cons_ne_nil _ _, fun d hd => ?_⟩, h0⟩
  rcases List.mem_cons.1 hd with rfl | hd
  · exact h.2 d List.mem_cons_self
  · refine h.2 d (List.mem_cons_of_mem c ?_)
    exact List.mem_reverse.1 (List.dropWhile_subset _ (List.mem_reverse.1 hd))

/-! The two layouts. -/

theorem exists_parts_positional {digits : List Char} (h : IsDigits digits)
    (h0 : digits.head? ≠ some '0') (exponent : Int) :
    ∃ whole fraction, Parts (positional digits exponent) whole fraction [] ∧ fraction ≠ [] := by
  unfold positional
  split
  · have hfraction : IsDigits (List.replicate ((-exponent).toNat - 1) '0' ++ digits) :=
      h.append_left fun c hc => isDigit_of_mem_replicate hc
    exact ⟨['0'], _, ⟨by simp, .inl rfl, .inr ⟨_, hfraction, rfl⟩, .inl rfl⟩,
      List.cons_ne_nil _ _⟩
  · dsimp only
    generalize hpadded : digits ++ List.replicate (exponent.toNat + 1 - digits.length) '0' = padded
    have hall : ∀ c ∈ padded, c.isDigit = true := by
      rw [← hpadded]
      intro c hc
      rcases List.mem_append.1 hc with hc | hc
      · exact h.2 c hc
      · exact isDigit_of_mem_replicate hc
    have hwhole : IsWhole (padded.take (exponent.toNat + 1)) := by
      obtain ⟨c, r, rfl⟩ := List.exists_cons_of_ne_nil h.1
      refine .inr ⟨⟨?_, fun d hd => hall d (List.mem_of_mem_take hd)⟩, ?_⟩
      · simp [← hpadded]
      · simpa [← hpadded] using h0
    generalize hfraction : (if (padded.drop (exponent.toNat + 1)).isEmpty then ['0']
      else padded.drop (exponent.toNat + 1)) = fraction
    have hdigits : IsDigits fraction := by
      rw [← hfraction]
      split
      · exact isDigits_zero
      · rename_i hne
        exact ⟨by simpa using hne, fun c hc => hall c (List.mem_of_mem_drop hc)⟩
    exact ⟨_, '.' :: fraction, ⟨by simp, hwhole, .inr ⟨_, hdigits, rfl⟩, .inl rfl⟩,
      List.cons_ne_nil _ _⟩

theorem exists_parts_exponential {digits : List Char} (h : IsDigits digits)
    (h0 : digits.head? ≠ some '0') (width : Nat) (exponent : Int) :
    ∃ whole fraction power, Parts (exponential width digits exponent) whole fraction power ∧
      power ≠ [] := by
  obtain ⟨c, r, rfl⟩ := List.exists_cons_of_ne_nil h.1
  have hwhole : IsWhole [c] :=
    .inr ⟨⟨List.cons_ne_nil _ _, fun d hd => h.2 d (List.mem_cons.2 (.inl (List.mem_singleton.1 hd)))⟩,
      h0⟩
  have hfraction : IsFraction (if (c :: r).length ≤ 1 then [] else '.' :: (c :: r).drop 1) := by
    split
    · exact .inl rfl
    · rename_i hlong
      refine .inr ⟨r, ⟨?_, fun d hd => h.2 d (List.mem_cons_of_mem c hd)⟩, rfl⟩
      rintro rfl
      simp at hlong
  have hpower : IsDigits (List.replicate (width - (Nat.toDigits 10 exponent.natAbs).length) '0' ++
      Nat.toDigits 10 exponent.natAbs) :=
    (isDigits_toDigits _).append_left fun d hd => isDigit_of_mem_replicate hd
  refine ⟨[c], _, 'e' :: (if exponent < 0 then '-' else '+') :: _, ⟨?_, hwhole, hfraction,
    .inr ⟨_, _, ?_, hpower, rfl⟩⟩, List.cons_ne_nil _ _⟩
  · simp [exponential]
  · split
    · exact .inr rfl
    · exact .inl rfl

/-! The whole form. -/

theorem digits_ne_zero_of_shortest? {x : Double} {s : Scaled} (hx : x.isZero = false)
    (h : shortest? x = some s) : s.digits ≠ 0 := by
  intro hs
  unfold shortest? at h
  split at h
  · obtain ⟨i, -, hi⟩ := List.exists_of_findSome?_eq_some h
    have hread := toDouble_of_fitting hi
    rw [← hread] at hx
    simp [Scaled.toDouble, hs, Double.ofRatio, Double.zero, Double.isZero] at hx
  · cases h

/-- The written form of a finite double has a fraction or an exponent. -/
theorem exists_parts_renderMagnitude (layout : Layout) (x : Double) :
    ∃ whole fraction exponent, Parts (renderMagnitude layout x) whole fraction exponent ∧
      (fraction ≠ [] ∨ exponent ≠ []) := by
  have hzero : Parts (positional ['0'] 0) ['0'] ['.', '0'] [] :=
    ⟨by decide, .inl rfl, .inr ⟨['0'], isDigits_zero, rfl⟩, .inl rfl⟩
  unfold renderMagnitude
  split
  · exact ⟨_, _, _, hzero, .inl (by decide)⟩
  · rename_i s hs
    have hdigits : s.digits ≠ 0 := by
      split at hs
      · cases hs
      · rename_i hx
        exact digits_ne_zero_of_shortest? (by simpa using hx) hs
    obtain ⟨htrim, htrim0⟩ := isDigits_trimZeros (isDigits_toDigits s.digits) (head?_toDigits hdigits)
    dsimp only
    split
    · obtain ⟨whole, fraction, hparts, hne⟩ := exists_parts_positional htrim htrim0
        (s.exponent + ((Nat.toDigits 10 s.digits).length : Int) - 1)
      exact ⟨whole, fraction, [], hparts, .inl hne⟩
    · obtain ⟨whole, fraction, power, hparts, hne⟩ := exists_parts_exponential htrim htrim0
        layout.exponentDigits (s.exponent + ((Nat.toDigits 10 s.digits).length : Int) - 1)
      exact ⟨whole, fraction, power, hparts, .inr hne⟩

end BackendMigration.Decimal
