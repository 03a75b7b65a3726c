import BackendMigration.Source.Arguments
import BackendMigration.Text.Search
import BackendMigration.Text.Word
import Mathlib.Data.List.Basic

/-! Source text as tokens, for what does not depend on white space. -/
namespace BackendMigration.Source

open Text

/-- The second character goes on with the token of the first: a word, or an arrow. -/
def continues (a b : Char) : Bool := isWord a && isWord b || a == '=' && b == '>'

/-- Put a character in front of the first token. -/
def consFirst (c : Char) : List Text → List Text
  | [] => [[c]]
  | w :: ws => (c :: w) :: ws

/-- The tokens of a text: words, arrows, and any other character but white space. -/
def tokens : Text → List Text
  | [] => []
  | c :: r =>
    if isBlank c then tokens r
    else if r.head?.any (continues c) then consFirst c (tokens r)
    else [c] :: tokens r

/-- No token goes on from one text into the next. -/
def Apart (s t : Text) : Prop := ∀ a ∈ s.getLast?, ∀ b ∈ t.head?, continues a b = false

theorem isWord_eq_false_of_isBlank {c : Char} (h : isBlank c = true) : isWord c = false :=
  eq_false_of_isBlank (by decide) (by decide +kernel) h

variable {a b c : Char} {s t w : Text}

theorem continues_of_isBlank_left (h : isBlank a = true) (b : Char) : continues a b = false := by
  have hne : a ≠ '=' := by
    rintro rfl
    revert h
    decide
  simp [continues, isWord_eq_false_of_isBlank h, hne]

theorem continues_of_isBlank_right (h : isBlank b = true) (a : Char) : continues a b = false := by
  have hne : b ≠ '>' := by
    rintro rfl
    revert h
    decide
  simp [continues, isWord_eq_false_of_isBlank h, hne]

/-- A sign that is part of no word and ends no arrow begins a token. -/
theorem continues_sign (h : isWord b = false) (hne : b ≠ '>') (a : Char) : continues a b = false := by
  simp [continues, h, hne]

theorem continues_of_sign (h : isWord a = false) (hne : a ≠ '=') (b : Char) :
    continues a b = false := by
  simp [continues, h, hne]

theorem apart_nil_left (t : Text) : Apart [] t := by simp [Apart]

theorem apart_nil_right (s : Text) : Apart s [] := by simp [Apart]

theorem Apart.of_append (h : Apart s (t ++ w)) : Apart s t := by
  cases t with
  | nil => exact apart_nil_right s
  | cons b t => exact h

/-- A word that no token goes on to is after no word. -/
theorem Apart.any_isWord (h : Apart s (b :: t)) (hb : isWord b = true) :
    s.getLast?.any isWord = false := by
  cases hlast : s.getLast? with
  | none => rfl
  | some a =>
    have hgo := h a hlast b rfl
    rw [continues, hb, Bool.and_true, Bool.or_eq_false_iff] at hgo
    exact hgo.1

theorem apart_of_any_isWord (h : s.getLast?.any isWord = false) (hne : b ≠ '>') (t : Text) :
    Apart s (b :: t) := by
  intro a ha b' hb'
  obtain rfl : b = b' := by simpa using hb'
  rw [Option.mem_def.1 ha, Option.any_some] at h
  simp [continues, h, hne]

theorem tokens_cons_of_isBlank (h : isBlank c = true) (t : Text) : tokens (c :: t) = tokens t := by
  simp [tokens, h]

theorem tokens_eq_nil_iff : tokens t = [] ↔ allBlank t = true := by
  induction t with
  | nil => simp [tokens, allBlank]
  | cons c r ih =>
    unfold tokens
    split
    · rename_i hblank
      simp only [allBlank, List.all_cons, hblank, Bool.true_and] at ih ⊢
      exact ih
    · rename_i hsolid
      have hne (ts : List Text) : consFirst c ts ≠ [] := by cases ts <;> simp [consFirst]
      split
      · simp [hne, allBlank, hsolid]
      · simp [allBlank, hsolid]

theorem tokens_cons_of_continues (h : continues c b = true) (t : Text) :
    tokens (c :: b :: t) = consFirst c (tokens (b :: t)) := by
  have hsolid : isBlank c ≠ true := fun hc => by simp [continues_of_isBlank_left hc] at h
  rw [tokens, if_neg hsolid, List.head?_cons, Option.any_some, if_pos h]

theorem tokens_cons_of_apart (hc : isBlank c = false) (h : Apart [c] t) :
    tokens (c :: t) = [c] :: tokens t := by
  have hcut : t.head?.any (continues c) ≠ true := by
    cases hhead : t.head? with
    | none => simp
    | some b => simp [h c rfl b hhead]
  rw [tokens, if_neg (by simp [hc]), if_neg hcut]

theorem exists_of_not_apart (h : ¬ Apart [c] t) : ∃ b r, t = b :: r ∧ continues c b = true := by
  cases t with
  | nil => exact absurd (apart_nil_right [c]) h
  | cons b r => exact ⟨b, r, rfl, by simpa [Apart] using h⟩

theorem exists_tokens_of_continues (h : continues c b = true) (t : Text) :
    ∃ v vs, tokens (b :: t) = v :: vs := by
  apply List.exists_cons_of_ne_nil
  rw [Ne, tokens_eq_nil_iff, allBlank, List.all_cons]
  cases hb : isBlank b with
  | true => simp [continues_of_isBlank_right hb] at h
  | false => simp

theorem tokens_eq_of_consFirst {us : List Text} (hgo : continues c b = true)
    (h : consFirst c (tokens (b :: t)) = w :: us) :
    ∃ v, tokens (b :: t) = v :: us ∧ c :: v = w := by
  obtain ⟨v, vs, hv⟩ := exists_tokens_of_continues hgo t
  rw [hv] at h ⊢
  obtain ⟨hw, rfl⟩ := List.cons.inj h
  exact ⟨v, rfl, hw⟩

theorem tokens_append (h : Apart s t) : tokens (s ++ t) = tokens s ++ tokens t := by
  induction s with
  | nil => rfl
  | cons c r ih =>
    have hrest : Apart r t := by
      intro a ha b hb
      refine h a ?_ b hb
      rw [List.getLast?_cons, Option.mem_def.1 ha]
      rfl
    have ih := ih hrest
    cases hblank : isBlank c with
    | true => rw [List.cons_append, tokens_cons_of_isBlank hblank, tokens_cons_of_isBlank hblank, ih]
    | false =>
      cases r with
      | nil => rw [List.singleton_append, tokens_cons_of_apart hblank h,
          tokens_cons_of_apart hblank (apart_nil_right [c])]; rfl
      | cons d r =>
        cases hgo : continues c d with
        | true =>
          obtain ⟨v, vs, hv⟩ := exists_tokens_of_continues hgo r
          rw [List.cons_append, List.cons_append, tokens_cons_of_continues hgo,
            tokens_cons_of_continues hgo, ← List.cons_append, ih, hv]
          rfl
        | false =>
          have happart (x : Text) : Apart [c] (d :: x) := by simp [Apart, hgo]
          rw [List.cons_append, List.cons_append, tokens_cons_of_apart hblank (happart _),
            tokens_cons_of_apart hblank (happart _), ← List.cons_append, ih]
          rfl

theorem tokens_of_allBlank (h : allBlank s = true) : tokens s = [] := tokens_eq_nil_iff.2 h

theorem apart_of_allBlank_right (h : allBlank t = true) (s : Text) : Apart s t := by
  intro a _ b hb
  exact continues_of_isBlank_right (List.all_eq_true.1 h b (List.mem_of_mem_head? hb)) a

theorem apart_of_allBlank_left (h : allBlank s = true) (t : Text) : Apart s t := by
  intro a ha b _
  exact continues_of_isBlank_left (List.all_eq_true.1 h a (List.mem_of_getLast? ha)) b

/-- White space parts tokens, and is none. -/
theorem tokens_blank_append (h : allBlank s = true) (t : Text) : tokens (s ++ t) = tokens t := by
  rw [tokens_append (apart_of_allBlank_left h t), tokens_of_allBlank h, List.nil_append]

theorem tokens_append_blank (h : allBlank t = true) (s : Text) : tokens (s ++ t) = tokens s := by
  rw [tokens_append (apart_of_allBlank_right h s), tokens_of_allBlank h, List.append_nil]

theorem Apart.blank_append (h : Apart s t) (hw : allBlank w = true) : Apart s (w ++ t) := by
  cases w with
  | nil => exact h
  | cons b w =>
    intro a _ b' hb
    obtain rfl : b = b' := by simpa using hb
    exact continues_of_isBlank_right (List.all_eq_true.1 hw b List.mem_cons_self) a

theorem tokens_trimStart (t : Text) : tokens (trimStart isBlank t) = tokens t := by
  have hblank : allBlank (t.takeWhile isBlank) = true := List.all_takeWhile
  have h := tokens_blank_append hblank (t.dropWhile isBlank)
  rw [List.takeWhile_append_dropWhile] at h
  exact h.symm

theorem tokens_trimEnd (t : Text) : tokens (trimEnd isBlank t) = tokens t := by
  have hblank : allBlank (t.reverse.takeWhile isBlank).reverse = true := by
    rw [allBlank, List.all_reverse]
    exact List.all_takeWhile
  have h := tokens_append_blank hblank (t.reverse.dropWhile isBlank).reverse
  rw [← List.reverse_append, List.takeWhile_append_dropWhile, List.reverse_reverse] at h
  exact h.symm

theorem tokens_strip (t : Text) : tokens (strip t) = tokens t := by
  rw [strip, trim, tokens_trimEnd, tokens_trimStart]

theorem apart_cons (hb : isWord b = false) (hne : b ≠ '>') (s t : Text) : Apart s (b :: t) := by
  intro a _ b' hb'
  obtain rfl : b = b' := by simpa using hb'
  exact continues_sign hb hne a

theorem apart_concat (ha : isWord a = false) (hne : a ≠ '=') (s t : Text) : Apart (s ++ [a]) t := by
  intro a' ha' b _
  obtain rfl : a = a' := by simpa using ha'
  exact continues_of_sign ha hne b

/-- A sign that is no letter and ends no arrow stands by itself. -/
theorem tokens_append_cons (hb : isWord b = false) (hne : b ≠ '>') (s t : Text) :
    tokens (s ++ b :: t) = tokens s ++ tokens (b :: t) := tokens_append (apart_cons hb hne s t)

theorem tokens_cons_of_sign (hblank : isBlank a = false) (ha : isWord a = false) (hne : a ≠ '=')
    (t : Text) : tokens (a :: t) = [a] :: tokens t :=
  tokens_cons_of_apart hblank (apart_concat ha hne [] t)

/-- So it does after white space. -/
theorem tokens_append_sign (hw : allBlank w = true) (hblank : isBlank b = false) (hb : isWord b = false)
    (hne : b ≠ '=') (hne' : b ≠ '>') (s t : Text) :
    tokens (s ++ (w ++ b :: t)) = tokens s ++ [b] :: tokens t := by
  rw [tokens_append ((apart_cons hb hne' s t).blank_append hw), tokens_blank_append hw,
    tokens_cons_of_sign hblank hb hne]

/-- Taking an argument text apart and putting it together again changes white space only. -/
theorem tokens_join_splitTextsFrom (quote : Option Char) (depth : Int) (current t : Text) :
    tokens (join ", ".toList (splitTextsFrom quote depth current t)) =
      tokens (current.reverse ++ t) := by
  fun_induction splitTextsFrom quote depth current t with
  | case1 => simp [join, tokens_strip]
  | case6 depth current c r _ _ _ h ih =>
    obtain ⟨w, ws, hw⟩ := List.exists_cons_of_ne_nil (splitTextsFrom_ne_nil none depth [] r)
    have hcomma : ", ".toList = ',' :: [' '] := by decide
    have hjoin : join ", ".toList (strip current.reverse :: w :: ws) =
        strip current.reverse ++ ", ".toList ++ join ", ".toList (w :: ws) := rfl
    rw [h.1, tokens_append_cons (by decide) (by decide), hw, hjoin, ← hw, List.append_assoc, hcomma,
      List.cons_append, tokens_append_cons (by decide) (by decide), tokens_strip]
    have hpart := @tokens_cons_of_sign ',' (by decide) (by decide) (by decide)
    rw [hpart, hpart, List.singleton_append, tokens_cons_of_isBlank (by decide), ← hcomma, ih]
    rfl
  | _ => simp_all

theorem tokens_join_argumentTexts (t : Text) :
    tokens (join ", ".toList (argumentTexts t)) = tokens t := by
  have h := tokens_join_splitTextsFrom none 0 [] t
  unfold argumentTexts
  split
  · rename_i he
    rw [he] at h
    exact h
  · exact h

theorem Apart.append_left (h : Apart s t) (hs : s ≠ []) (w : Text) : Apart (w ++ s) t := by
  intro a ha
  rw [List.getLast?_append_of_ne_nil _ hs] at ha
  exact h a ha

/-- A text can be cut between any two tokens. -/
theorem exists_of_tokens_eq_append {us vs : List Text} (h : tokens t = us ++ vs) :
    ∃ front back, t = front ++ back ∧ tokens front = us ∧ tokens back = vs ∧ Apart front back := by
  induction t generalizing us with
  | nil =>
    obtain ⟨rfl, rfl⟩ := List.append_eq_nil_iff.1 h.symm
    exact ⟨[], [], rfl, rfl, rfl, apart_nil_left []⟩
  | cons c r ih =>
    cases us with
    | nil => exact ⟨[], c :: r, rfl, rfl, h, apart_nil_left _⟩
    | cons u us =>
      cases hblank : isBlank c with
      | true =>
        rw [tokens_cons_of_isBlank hblank] at h
        obtain ⟨front, back, rfl, hfront, hback, ha⟩ := ih h
        have hne : front ≠ [] := by
          rintro rfl
          cases hfront
        exact ⟨c :: front, back, rfl, by rw [tokens_cons_of_isBlank hblank, hfront], hback,
          ha.append_left hne [c]⟩
      | false =>
        by_cases hcut : Apart [c] r
        · rw [tokens_cons_of_apart hblank hcut] at h
          obtain ⟨rfl, hr⟩ := List.cons.inj h
          obtain ⟨front, back, rfl, hfront, hback, ha⟩ := ih hr
          refine ⟨c :: front, back, rfl, ?_, hback, ?_⟩
          · rw [tokens_cons_of_apart hblank hcut.of_append, hfront]
          · cases front with
            | nil => exact hcut
            | cons d front => exact ha.append_left (List.cons_ne_nil d front) [c]
        · obtain ⟨d, r, rfl, hgo⟩ := exists_of_not_apart hcut
          rw [tokens_cons_of_continues hgo] at h
          obtain ⟨v, hr, rfl⟩ := tokens_eq_of_consFirst hgo h
          have hr : tokens (d :: r) = (v :: us) ++ vs := hr
          obtain ⟨front, back, hfb, hfront, hback, ha⟩ := ih hr
          cases front with
          | nil => cases hfront
          | cons e front =>
            obtain ⟨rfl, rfl⟩ := List.cons.inj hfb
            refine ⟨c :: d :: front, back, rfl, ?_, hback, ha.append_left (List.cons_ne_nil d front) [c]⟩
            rw [tokens_cons_of_continues hgo, hfront]
            rfl

/-- A text of one token is that token with white space around it. -/
theorem exists_of_tokens_eq_singleton (h : tokens t = [w]) :
    ∃ front back, t = front ++ (w ++ back) ∧ allBlank front = true ∧ allBlank back = true := by
  induction t generalizing w with
  | nil => cases h
  | cons c r ih =>
    cases hblank : isBlank c with
    | true =>
      rw [tokens_cons_of_isBlank hblank] at h
      obtain ⟨front, back, rfl, hf, hb⟩ := ih h
      exact ⟨c :: front, back, rfl, by simpa [allBlank, hblank] using hf, hb⟩
    | false =>
      by_cases hcut : Apart [c] r
      · rw [tokens_cons_of_apart hblank hcut] at h
        obtain ⟨rfl, hr⟩ := List.cons.inj h
        exact ⟨[], r, rfl, rfl, tokens_eq_nil_iff.1 hr⟩
      · obtain ⟨d, r, rfl, hgo⟩ := exists_of_not_apart hcut
        rw [tokens_cons_of_continues hgo] at h
        obtain ⟨v, hr, rfl⟩ := tokens_eq_of_consFirst hgo h
        obtain ⟨front, back, hfb, hf, hb⟩ := ih hr
        cases front with
        | nil => exact ⟨[], back, by rw [hfb]; rfl, rfl, hb⟩
        | cons e front =>
          -- What goes on with a token is not white space.
          obtain ⟨rfl, -⟩ := List.cons.inj hfb
          have hd : isBlank d = true := by simpa [allBlank] using And.left (by simpa [allBlank] using hf)
          simp [continues_of_isBlank_right hd] at hgo

/-- The text up to its last token, that token, and white space. -/
theorem exists_of_getLast?_tokens (h : (tokens t).getLast? = some w) :
    ∃ front back, t = front ++ (w ++ back) ∧ allBlank back = true ∧ Apart front w := by
  obtain ⟨us, hus⟩ := List.getLast?_eq_some_iff.1 h
  obtain ⟨front, last, rfl, -, hlast, ha⟩ := exists_of_tokens_eq_append hus
  obtain ⟨blank, back, rfl, hf, hb⟩ := exists_of_tokens_eq_singleton hlast
  refine ⟨front ++ blank, back, by simp, hb, ?_⟩
  cases hblank : blank with
  | nil =>
    rw [hblank] at ha
    rw [List.append_nil]
    exact Apart.of_append ha
  | cons b rest =>
    intro a ha' d _
    rw [List.getLast?_append_cons] at ha'
    have hmem : a ∈ blank := hblank ▸ List.mem_of_getLast? ha'
    exact continues_of_isBlank_left (List.all_eq_true.1 hf a hmem) d

end BackendMigration.Source
