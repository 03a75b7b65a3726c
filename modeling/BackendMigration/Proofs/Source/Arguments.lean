import BackendMigration.Proofs.Source.Block
import BackendMigration.Proofs.Source.Literals
import Mathlib.Algebra.Ring.Parity

/-! The arguments of a call as stretches of the text: where they are the pieces between the commas of the
call, and which literals the reader takes to be longer than they are. -/
namespace BackendMigration.Source

open Text

/-- How many backslashes stand at the end of a text. -/
def backslashes (t : Text) : Nat := (t.reverse.takeWhile (· == '\\')).length

/-- Texts one after another, with one character between them, as stretches from an offset on. -/
def spansFrom (offset : Nat) : List Text → List Span
  | [] => []
  | t :: ts => ⟨offset, offset + t.length⟩ :: spansFrom (offset + t.length + 1) ts

/-- The arguments, as stretches of a text, of the call whose pieces begin at an offset of it; those of white
space only are left out. -/
def ownSpans (t : Text) (offset : Nat) (ps : List Piece) : List Span :=
  (spansFrom offset ((ownArguments 0 ps).map sourceText)).filter fun s => !allBlank (s.slice t)

/-- No backslash, escaped or not, stands right before the mark that ends a literal. -/
def Piece.EndsBare : Piece → Prop
  | .code _ => True
  | .literal _ body => body.getLast? ≠ some '\\'

/-! Escaped quote marks. -/

@[simp] theorem backslashes_nil : backslashes [] = 0 := rfl

theorem backslashes_concat (t : Text) (c : Char) :
    backslashes (t ++ [c]) = if c = '\\' then backslashes t + 1 else 0 := by
  by_cases h : c = '\\' <;> simp [backslashes, h]

theorem getLast?_of_odd_backslashes {t : Text} (h : Odd (backslashes t)) : t.getLast? = some '\\' := by
  induction t using List.reverseRecOn with
  | nil => simp at h
  | append_singleton t c _ =>
    rw [backslashes_concat] at h
    split at h
    · rename_i hc
      simp [hc]
    · simp at h

theorem backslashes_cons {c : Char} (hc : c ≠ '\\') (t : Text) : backslashes (c :: t) = backslashes t := by
  induction t using List.reverseRecOn with
  | nil => simp [backslashes, hc]
  | append_singleton t d ih => rw [← List.cons_append, backslashes_concat, backslashes_concat, ih]

/-- A backslash and the character that it escapes do not count for what follows. -/
theorem even_backslashes_escaped (c : Char) (t : Text) :
    Even (backslashes ('\\' :: c :: t)) ↔ Even (backslashes t) := by
  induction t using List.reverseRecOn with
  | nil => by_cases hc : c = '\\' <;> simp [backslashes, hc]
  | append_singleton t d ih =>
    rw [← List.cons_append, ← List.cons_append, backslashes_concat, backslashes_concat]
    split
    · rw [Nat.even_add_one, Nat.even_add_one, ih]
    · rfl

/-- Where a character stands in a text with one more in front. -/
theorem forall_split_cons {a c : Char} {t : Text} {q : Text → Prop} :
    (∀ front back, c :: t = front ++ a :: back → q front) ↔
      (c = a → q []) ∧ ∀ front back, t = front ++ a :: back → q (c :: front) := by
  constructor
  · intro h
    refine ⟨fun hc => h [] t (by rw [hc]; rfl), fun front back ht => h (c :: front) back (by rw [ht]; rfl)⟩
  · rintro ⟨hfirst, hrest⟩ front back ht
    cases front with
    | nil => exact hfirst (List.cons.inj ht).1
    | cons d front =>
      obtain ⟨rfl, rfl⟩ := List.cons.inj ht
      exact hrest front back rfl

/-- A text is the inside of a literal exactly if every quote mark of the literal in it has an odd number of
backslashes before it, and the one behind it an even number. -/
theorem isBody_iff {mark : Char} (hm : mark ≠ '\\') {body : Text} : isBody mark body = true ↔
    (∀ front back, body = front ++ mark :: back → Odd (backslashes front)) ∧ Even (backslashes body) := by
  have hback : '\\' ≠ mark := hm.symm
  fun_induction isBody mark body with
  | case1 => simp
  | case2 c =>
    rw [forall_split_cons]
    by_cases hc : c = '\\' <;> simp [backslashes, hc]
  | case3 d r ih =>
    have hone : Odd (backslashes ['\\']) := by decide
    refine ih.trans ?_
    rw [even_backslashes_escaped, forall_split_cons, forall_split_cons]
    simp only [hback, hone, ← Nat.not_even_iff_odd, even_backslashes_escaped, false_imp_iff, implies_true,
      true_and]
  | case4 c d r hc ih =>
    rw [Bool.and_eq_true, backslashes_cons hc, forall_split_cons]
    simp [backslashes_cons hc, and_assoc, ih]

/-! Reading pieces as stretches. -/

variable {t : Text} {ps : List Piece} {depth : Int} {previous : Char} {start : Nat}

/-- A literal is read up to its first mark that is not right behind a backslash. -/
theorem splitSpans_literal {mark : Char} {body : Text} (hlast : (previous :: body).getLast? ≠ some '\\')
    (hmarks : ∀ front back, body = front ++ mark :: back → (previous :: front).getLast? = some '\\')
    (offset : Nat) (rest : Text) :
    splitSpans (some mark) depth previous start offset (body ++ mark :: rest) =
      splitSpans none depth mark start (offset + body.length + 1) rest := by
  induction body generalizing previous offset with
  | nil =>
    have hclose : previous ≠ '\\' := by simpa using hlast
    simp [splitSpans, hclose]
  | cons c r ih =>
    have hopen : ¬(c = mark ∧ previous ≠ '\\') := by
      rintro ⟨rfl, hne⟩
      exact hne (by simpa using hmarks [] r rfl)
    have hmarks' (front back : Text) (h : r = front ++ mark :: back) :
        (c :: front).getLast? = some '\\' := by
      have := hmarks (c :: front) back (by rw [h]; rfl)
      rwa [List.getLast?_cons_cons] at this
    rw [List.cons_append, splitSpans, if_neg hopen, ih (by rwa [List.getLast?_cons_cons] at hlast) hmarks',
      List.length_cons, Nat.add_assoc offset, Nat.add_comm 1]

/-- A piece is read as a whole, from outside of literals to outside of literals, unless it is a comma that
separates arguments. -/
theorem exists_splitSpans_piece {p : Piece} (hv : p.Valid) (hb : p.EndsBare)
    (hp : ¬(p = .code ',' ∧ depth = 0)) (offset : Nat) (rest : Text) :
    ∃ last, splitSpans none depth previous start offset (p.text ++ rest) =
      splitSpans none (depth + p.depth) last start (offset + p.text.length) rest := by
  cases p with
  | code c =>
    have hquote : isQuote c = false := hv
    have hcut : ¬(c = ',' ∧ depth = 0) := fun h => hp ⟨by rw [h.1], h.2⟩
    refine ⟨c, ?_⟩
    rw [Piece.text, List.singleton_append, splitSpans, hquote, if_neg Bool.false_ne_true, if_neg hcut,
      Piece.depth]
    split
    · rfl
    · split
      · rfl
      · rw [Int.add_zero]
        rfl
  | literal mark body =>
    obtain ⟨hmark, hbody⟩ := hv
    have hne : mark ≠ '\\' := by
      rintro rfl
      cases hmark
    obtain ⟨hmarks, -⟩ := (isBody_iff hne).1 hbody
    have hend : body.getLast? ≠ some '\\' := hb
    have hlast : (mark :: body).getLast? ≠ some '\\' := by
      rw [List.getLast?_cons]
      cases hl : body.getLast? with
      | none => simpa using hne
      | some a => simpa [hl] using hend
    have hescaped (front back : Text) (h : body = front ++ mark :: back) :
        (mark :: front).getLast? = some '\\' := by
      rw [List.getLast?_cons, getLast?_of_odd_backslashes (hmarks front back h)]
      rfl
    refine ⟨mark, ?_⟩
    rw [Piece.text, List.cons_append, splitSpans, if_pos hmark, List.append_assoc, List.singleton_append,
      splitSpans_literal hlast hescaped, Piece.depth, Int.add_zero]
    congr 1
    simp only [List.length_cons, List.length_append, List.length_nil]
    omega

/-- The pieces of an argument list are read as the arguments between its commas; `current` is what has been
read of the first of them. -/
theorem splitSpans_sourceText (hv : ∀ p ∈ ps, p.Valid) (hb : ∀ p ∈ ps, p.EndsBare) (current : Text) :
    splitSpans none depth previous start (start + current.length) (sourceText ps) =
      spansFrom start (((ownArguments depth ps).map sourceText).modifyHead (current ++ ·)) := by
  induction ps generalizing depth previous start current with
  | nil => simp [splitSpans, ownArguments, spansFrom]
  | cons p ps ih =>
    rw [List.forall_mem_cons] at hv hb
    by_cases hp : p = .code ',' ∧ depth = 0
    · obtain ⟨rfl, rfl⟩ := hp
      have hcut : splitSpans none 0 previous start (start + current.length) (',' :: sourceText ps) =
          ⟨start, start + current.length⟩ ::
            splitSpans none 0 ',' (start + current.length + 1) (start + current.length + 1)
              (sourceText ps) := rfl
      have hrest : splitSpans none 0 ',' (start + current.length + 1) (start + current.length + 1)
          (sourceText ps) = spansFrom (start + current.length + 1) ((ownArguments 0 ps).map sourceText) := by
        have h := @ih 0 ',' (start + current.length + 1) hv.2 hb.2 []
        rwa [Reader.modifyHead_nil_append] at h
      rw [sourceText_cons, Piece.text, List.singleton_append, hcut, hrest, ownArguments, if_pos ⟨rfl, rfl⟩]
      simp [spansFrom]
    · obtain ⟨last, hpiece⟩ := exists_splitSpans_piece hv.1 hb.1 hp (start + current.length) (sourceText ps)
      rw [sourceText_cons, hpiece, ownArguments, if_neg hp, Nat.add_assoc, ← List.length_append,
        ih hv.2 hb.2 (current ++ p.text)]
      obtain ⟨arg, args, hargs⟩ := exists_ownArguments (depth + p.depth) ps
      simp [hargs]

/-- The arguments with the commas between them are the text of all pieces. -/
theorem join_ownArguments (depth : Int) (ps : List Piece) :
    join [','] ((ownArguments depth ps).map sourceText) = sourceText ps := by
  have h := sourceText_intercalate [.code ','] (ownArguments depth ps)
  rw [intercalate_ownArguments] at h
  exact h.symm

/-- Texts that lie one after another in a text, with a comma between them, are its characters there. -/
theorem map_slice_spansFrom {ts : List Text} {offset : Nat} {rest : Text}
    (h : t.drop offset = join [','] ts ++ rest) : (spansFrom offset ts).map (·.slice t) = ts := by
  induction ts generalizing offset with
  | nil => rfl
  | cons u ts ih =>
    have hfirst : Span.slice ⟨offset, offset + u.length⟩ t = u := by
      rw [Span.slice, h, Nat.add_sub_cancel_left]
      cases ts <;> simp [join]
    rw [spansFrom, List.map_cons, hfirst]
    cases ts with
    | nil => rfl
    | cons v ts =>
      have hjoin : join [','] (u :: v :: ts) = u ++ [','] ++ join [','] (v :: ts) := rfl
      rw [ih]
      rw [Nat.add_assoc, ← List.drop_drop, h, hjoin, List.append_assoc]
      exact List.drop_left' (by simp)

/-- The arguments of a call are the pieces between its own commas, less those that are blank, and lie where
these stand in the text, unless a literal ends with an escaped backslash. -/
theorem argumentSpans?_eq_ownSpans {opened close : Nat} (hc : closeOfCall? t opened = some close)
    (ht : (⟨opened + 1, close - 1⟩ : Span).slice t = sourceText ps) (hv : ∀ p ∈ ps, p.Valid)
    (hb : ∀ p ∈ ps, p.EndsBare) :
    argumentSpans? t opened = some (ownSpans t (opened + 1) ps) ∧
      (spansFrom (opened + 1) ((ownArguments 0 ps).map sourceText)).map (·.slice t) =
        (ownArguments 0 ps).map sourceText := by
  have hsub : close - 1 - (opened + 1) = close - opened - 2 := by omega
  rw [Span.slice, hsub] at ht
  constructor
  · have hsplit := @splitSpans_sourceText ps 0 '(' (opened + 1) hv hb []
    rw [Reader.modifyHead_nil_append] at hsplit
    rw [argumentSpans?, hc, Option.map_some, ht]
    exact congrArg (fun spans => some (spans.filter fun s => !allBlank (s.slice t))) hsplit
  · have hrest : t.drop (opened + 1) = join [','] ((ownArguments 0 ps).map sourceText) ++
        (t.drop (opened + 1)).drop (close - opened - 2) := by
      rw [join_ownArguments, ← ht, List.take_append_drop]
    exact map_slice_spansFrom hrest

/-- A comma of a literal and one of an inner call separate nothing. -/
theorem argumentSpans?_escaped_mark :
    let t := "f('it\\'s, ok', g(b, c))".toList
    let ps : List Piece := [.literal '\'' "it\\'s, ok".toList, .code ',', .code ' ', .code 'g', .code '(',
      .code 'b', .code ',', .code ' ', .code 'c', .code ')']
    (closeOfCall? t 1 = some 23 ∧ (⟨2, 22⟩ : Span).slice t = sourceText ps ∧ (∀ p ∈ ps, p.Valid) ∧
        ∀ p ∈ ps, p.EndsBare) ∧
      argumentSpans? t 1 = some (ownSpans t 2 ps) ∧ ownSpans t 2 ps = [⟨2, 13⟩, ⟨14, 22⟩] := by
  intro t ps
  have hc : closeOfCall? t 1 = some 23 := by decide
  have ht : (⟨2, 22⟩ : Span).slice t = sourceText ps := by decide
  have hv : ∀ p ∈ ps, p.Valid := by
    simp [ps, Piece.Valid]
    decide
  have hb : ∀ p ∈ ps, p.EndsBare := by
    simp [ps, Piece.EndsBare]
  exact ⟨⟨hc, ht, hv, hb⟩, (argumentSpans?_eq_ownSpans hc ht hv hb).1, by decide⟩

/-- An escaped backslash at the end of a literal is taken for the escape of its mark, and the comma behind
the literal for one inside of it. -/
theorem argumentSpans?_escaped_backslash : ¬∀ (t : Text) (opened close : Nat) (ps : List Piece),
    closeOfCall? t opened = some close → (⟨opened + 1, close - 1⟩ : Span).slice t = sourceText ps →
      (∀ p ∈ ps, p.Valid) → argumentSpans? t opened = some (ownSpans t (opened + 1) ps) := by
  intro h
  have hv : ∀ p ∈ [Piece.literal '\'' "\\\\".toList, .code ',', .code ' ', .code 'b'], p.Valid := by
    simp [Piece.Valid]
    decide
  have hspans := h "f('\\\\', b)".toList 1 10 _ (by decide) (by decide) hv
  exact absurd hspans (by decide)

end BackendMigration.Source
