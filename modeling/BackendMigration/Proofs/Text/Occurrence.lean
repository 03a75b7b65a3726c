import BackendMigration.Text.Lines
import Mathlib.Data.List.Infix
import Mathlib.Data.List.TakeWhile

/-! Where a fixed text occurs in a longer one. -/
namespace BackendMigration.Text

variable {needle s t : Text} {c : Char}

theorem occursIn_iff : occursIn needle t = true ↔ needle <:+: t := by
  unfold occursIn
  induction t with
  | nil => cases needle <;> simp [indexOf?]
  | cons c r ih =>
    rw [List.infix_cons_iff, ← List.isPrefixOf_iff_prefix, ← ih, indexOf?]
    split
    · rename_i h
      simp [h]
    · rename_i h
      simp [h]

theorem occursIn_of_isInfix (h : occursIn needle s = true) (hs : s <:+: t) : occursIn needle t = true :=
  occursIn_iff.2 ((occursIn_iff.1 h).trans hs)

/-- The first occurrence is the one at the end if there is none before it, also none that shares its
characters. -/
theorem indexOf?_append_iff (hn : needle ≠ []) (s t : Text) :
    indexOf? needle (s ++ (needle ++ t)) = some s.length ↔
      occursIn needle (s ++ needle.dropLast) = false := by
  induction s with
  | nil =>
    obtain ⟨a, r, rfl⟩ := List.exists_cons_of_ne_nil hn
    have hfirst : (a :: r).isPrefixOf (a :: (r ++ t)) = true := by simp
    have hshort : occursIn (a :: r) (a :: r).dropLast = false := by
      rw [← Bool.not_eq_true, occursIn_iff]
      intro h
      have := h.length_le
      simp only [List.length_dropLast, List.length_cons] at this
      omega
    rw [List.nil_append, List.nil_append, List.cons_append, indexOf?, if_pos hfirst]
    simp [hshort]
  | cons c s ih =>
    have hlength : needle.length ≤ (c :: (s ++ needle.dropLast)).length := by
      simp only [List.length_cons, List.length_append, List.length_dropLast]
      omega
    have hreach : c :: (s ++ needle.dropLast) <+: c :: (s ++ (needle ++ t)) := by
      rw [List.prefix_cons_inj, List.prefix_append_right_inj]
      exact (List.dropLast_prefix needle).trans (List.prefix_append needle t)
    have hhere : needle.isPrefixOf (c :: (s ++ (needle ++ t))) = true ↔
        needle <+: c :: (s ++ needle.dropLast) := by
      rw [List.isPrefixOf_iff_prefix]
      exact ⟨fun h => List.prefix_of_prefix_length_le h hreach hlength, fun h => h.trans hreach⟩
    rw [List.cons_append, List.cons_append, indexOf?, ← Bool.not_eq_true, occursIn_iff,
      List.infix_cons_iff, ← occursIn_iff, not_or, Bool.not_eq_true, ← ih, ← hhere]
    split
    · rename_i h
      simp [h]
    · rename_i h
      simp [h]

/-- Nothing occurs across a place between two characters that do not follow one another in it. -/
theorem occursIn_append (h : ∀ a ∈ s.getLast?, ∀ b ∈ t.head?, ¬ [a, b] <:+: needle) :
    occursIn needle (s ++ t) = (occursIn needle s || occursIn needle t) := by
  rw [Bool.eq_iff_iff, Bool.or_eq_true, occursIn_iff, occursIn_iff, occursIn_iff,
    List.infix_append_iff]
  constructor
  · rintro (hs | ht | ⟨front, back, rfl, hfront, hback⟩)
    · exact .inl hs
    · exact .inr ht
    · cases back with
      | nil => exact .inl (by simpa using hfront.isInfix)
      | cons b back =>
        cases front using List.reverseRecOn with
        | nil => exact .inr hback.isInfix
        | append_singleton front a =>
          have ha : a ∈ s.getLast? := by
            obtain ⟨before, rfl⟩ := hfront
            simp
          have hb : b ∈ t.head? := by
            obtain ⟨after, rfl⟩ := hback
            simp
          exact absurd ⟨front, back, by simp⟩ (h a ha b hb)
  · rintro (hs | ht)
    · exact .inl hs
    · exact .inr (.inl ht)

theorem occursIn_append_of_getLast? (h : ∀ a ∈ s.getLast?, a ∉ needle.dropLast) (t : Text) :
    occursIn needle (s ++ t) = (occursIn needle s || occursIn needle t) := by
  apply occursIn_append
  rintro a ha b - ⟨front, back, rfl⟩
  apply h a ha
  have : front ++ [a, b] ++ back = (front ++ [a]) ++ b :: back := by simp
  rw [this, List.dropLast_append_of_ne_nil (by simp)]
  simp

theorem occursIn_append_of_head? (h : ∀ b ∈ t.head?, b ∉ needle.tail) (s : Text) :
    occursIn needle (s ++ t) = (occursIn needle s || occursIn needle t) := by
  apply occursIn_append
  rintro a - b hb ⟨front, back, rfl⟩
  apply h b hb
  cases front <;> simp

/-- A text in which the needle does not occur, and in which it does not begin. -/
def Leads (needle f : Text) : Prop :=
  occursIn needle f = false ∧ ∀ a ∈ f.getLast?, a ∉ needle.dropLast

/-- A text in which the needle does not occur, and in which it does not end. -/
def Trails (needle f : Text) : Prop :=
  occursIn needle f = false ∧ ∀ b ∈ f.head?, b ∉ needle.tail

-- one character is looked at, and not every character there is
instance (needle f : Text) : Decidable (Leads needle f) :=
  haveI : Decidable (∀ a ∈ f.getLast?, a ∉ needle.dropLast) := Option.decidableForallMem _
  inferInstanceAs (Decidable (_ ∧ _))

instance (needle f : Text) : Decidable (Trails needle f) :=
  haveI : Decidable (∀ b ∈ f.head?, b ∉ needle.tail) := Option.decidableForallMem _
  inferInstanceAs (Decidable (_ ∧ _))

/-- A fixed text before another one adds no occurrence. -/
theorem occursIn_fixed_append {f : Text} (hf : Leads needle f) (t : Text) :
    occursIn needle (f ++ t) = occursIn needle t := by
  rw [occursIn_append_of_getLast? hf.2, hf.1, Bool.false_or]

/-- A fixed text after another one adds no occurrence. -/
theorem occursIn_append_fixed {f : Text} (hf : Trails needle f) (s : Text) :
    occursIn needle (s ++ f) = occursIn needle s := by
  rw [occursIn_append_of_head? hf.2, hf.1, Bool.or_false]

/-- A fixed text between two others keeps their occurrences apart. -/
theorem occursIn_append_fixed_append {f : Text} (hf : f ≠ []) (ha : Leads needle f)
    (hb : ∀ b ∈ f.head?, b ∉ needle.tail) (s t : Text) :
    occursIn needle (s ++ (f ++ t)) = (occursIn needle s || occursIn needle t) := by
  have hhead : ∀ b ∈ (f ++ t).head?, b ∉ needle.tail := by
    rwa [List.head?_append_of_ne_nil _ hf]
  rw [occursIn_append_of_head? hhead, occursIn_fixed_append ha]

theorem occursIn_nil (hn : needle ≠ []) : occursIn needle [] = false := by
  obtain ⟨a, r, rfl⟩ := List.exists_cons_of_ne_nil hn
  rfl

theorem occursIn_concat (hn : needle ≠ []) (hc : c ∉ needle) (t : Text) :
    occursIn needle (t ++ [c]) = occursIn needle t := by
  have hend : occursIn needle [c] = false := by
    rw [← Bool.not_eq_true, occursIn_iff]
    intro h
    obtain ⟨a, r, rfl⟩ := List.exists_cons_of_ne_nil hn
    have := List.mem_singleton.1 (h.subset List.mem_cons_self)
    simp [this] at hc
  have hlast : ∀ b ∈ [c].head?, b ∉ needle.tail := by
    simpa using fun h => hc (List.mem_of_mem_tail h)
  rw [occursIn_append_of_head? hlast, hend, Bool.or_false]

theorem not_mem_dropLast_of_concat (hc : c ∉ needle) (t : Text) :
    ∀ a ∈ (t ++ [c]).getLast?, a ∉ needle.dropLast := by
  simpa using fun h => hc (List.mem_of_mem_dropLast h)

/-- What does not hold a character occurs within the lines that end with it, and after them. -/
theorem occursIn_flatMap_concat (hn : needle ≠ []) (hc : c ∉ needle) (lines : List Text)
    (t : Text) :
    occursIn needle (lines.flatMap (· ++ [c]) ++ t) =
      (lines.any (occursIn needle) || occursIn needle t) := by
  induction lines with
  | nil => rfl
  | cons line rest ih =>
    rw [List.flatMap_cons, List.append_assoc,
      occursIn_append_of_getLast? (not_mem_dropLast_of_concat hc line), occursIn_concat hn hc, ih,
      List.any_cons, Bool.or_assoc]

theorem intercalate_eq_join (separator : Text) (parts : List Text) :
    separator.intercalate parts = join separator parts := by
  induction parts with
  | nil => rfl
  | cons t rest ih =>
    cases rest with
    | nil => simp [join]
    | cons s rest =>
      rw [List.intercalate_cons_cons, ih]
      rfl

/-- What does not hold a character occurs within the pieces that it separates. -/
theorem occursIn_join (hn : needle ≠ []) (hc : c ∉ needle) (pieces : List Text) :
    occursIn needle (join [c] pieces) = pieces.any (occursIn needle) := by
  induction pieces with
  | nil => exact occursIn_nil hn
  | cons t rest ih =>
    cases rest with
    | nil => simp [join]
    | cons s rest =>
      have hjoin : join [c] (t :: s :: rest) = t ++ [c] ++ join [c] (s :: rest) := rfl
      rw [hjoin, occursIn_append_of_getLast? (not_mem_dropLast_of_concat hc t),
        occursIn_concat hn hc, ih]
      rfl

theorem infix_join (separator : Text) {t : Text} {parts : List Text} (h : t ∈ parts) :
    t <:+: join separator parts := by
  induction parts with
  | nil => cases h
  | cons s rest ih =>
    cases rest with
    | nil =>
      obtain rfl := List.mem_singleton.1 h
      exact List.infix_rfl
    | cons r rest =>
      have hjoin : join separator (s :: r :: rest) = s ++ separator ++ join separator (r :: rest) :=
        rfl
      rw [hjoin]
      rcases List.mem_cons.1 h with rfl | h
      · rw [List.append_assoc]
        exact (List.prefix_append _ _).isInfix
      · exact (ih h).trans (List.suffix_append _ _).isInfix

section trim

variable {drop : Char → Bool} (hn : needle ≠ []) (hd : ∀ a ∈ needle, drop a = false)
include hn hd

theorem occursIn_takeWhile (t : Text) : occursIn needle (t.takeWhile drop) = false := by
  rw [← Bool.not_eq_true, occursIn_iff]
  intro h
  obtain ⟨a, r, rfl⟩ := List.exists_cons_of_ne_nil hn
  have ha := List.mem_takeWhile_imp (h.subset List.mem_cons_self)
  rw [hd a List.mem_cons_self] at ha
  cases ha

theorem occursIn_trimStart (t : Text) : occursIn needle (trimStart drop t) = occursIn needle t := by
  have hlast : ∀ a ∈ (t.takeWhile drop).getLast?, a ∉ needle.dropLast := by
    intro a ha hm
    have ha := List.mem_takeWhile_imp (List.mem_of_getLast? ha)
    rw [hd a (List.mem_of_mem_dropLast hm)] at ha
    cases ha
  have h := occursIn_fixed_append ⟨occursIn_takeWhile hn hd t, hlast⟩ (t.dropWhile drop)
  rw [List.takeWhile_append_dropWhile] at h
  exact h.symm

omit hn hd in
theorem occursIn_reverse (needle t : Text) : occursIn needle.reverse t.reverse = occursIn needle t := by
  rw [Bool.eq_iff_iff, occursIn_iff, occursIn_iff, List.reverse_infix]

theorem occursIn_trim (t : Text) : occursIn needle (trim drop t) = occursIn needle t := by
  have hreversed : occursIn needle.reverse ((trimStart drop t).reverse.dropWhile drop) =
      occursIn needle.reverse (trimStart drop t).reverse :=
    occursIn_trimStart (by simpa using hn) (by simpa using hd) _
  rw [trim, trimEnd, ← occursIn_reverse, List.reverse_reverse, hreversed, occursIn_reverse,
    occursIn_trimStart hn hd]

end trim

end BackendMigration.Text
