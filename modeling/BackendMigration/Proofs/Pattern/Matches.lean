import BackendMigration.Proofs.Pattern.Takes
import BackendMigration.Source.Block

/-! Where the matches of a pattern lie in a text. -/
namespace BackendMigration

/-- The stretch of a text that a match covers. -/
def Match.span (m : Match) : Span := ⟨m.start, m.stop⟩

namespace Pattern

/-- A number of characters that every match has at least. -/
def minLength : Pattern → Nat
  | one _ => 1
  | seq p q => p.minLength + q.minLength
  | alt p q => min p.minLength q.minLength
  | part _ p => p.minLength
  | _ => 0

variable {p : Pattern} {c c' : Cursor} {m : Match} {t : Text}

theorem Takes.minLength_le (h : Takes p c c') : c.offset + p.minLength ≤ c'.offset := by
  induction h with
  | one hs =>
    unfold Cursor.step? at hs
    split at hs
    · cases hs
    · split at hs
      · cases hs
        exact Nat.le_refl _
      · cases hs
  | again _ hlt _ _ ih =>
    simp only [minLength] at ih ⊢
    omega
  | _ => simp only [minLength] at *; omega

/-- A match that starts at an offset of a text. -/
def MatchesAt (p : Pattern) (t : Text) (m : Match) : Prop :=
  ∃ previous, p.matchAt? ⟨previous, t.drop m.start, m.start⟩ = some m

theorem MatchesAt.text_eq (h : p.MatchesAt t m) : m.text = m.span.slice t := by
  obtain ⟨previous, hm⟩ := h
  obtain ⟨c', _, _, _, hr, hs⟩ := takes_of_matchAt? hm
  simp only [Match.span, Span.slice, hs, Nat.add_sub_cancel_left]
  change t.drop m.start = _ at hr
  rw [hr, List.take_left]

theorem MatchesAt.minLength_le (h : p.MatchesAt t m) : m.start + p.minLength ≤ m.stop := by
  obtain ⟨previous, hm⟩ := h
  obtain ⟨c', ht, _, he, _⟩ := takes_of_matchAt? hm
  rw [he]
  exact ht.minLength_le

theorem mem_matchesFrom (whole : Text) {skip offset : Nat} {previous : Option Char}
    (ht : whole.drop offset = t) (h : m ∈ p.matchesFrom skip previous offset t) :
    p.MatchesAt whole m ∧ offset + skip ≤ m.start := by
  induction t generalizing skip previous offset with
  | nil => cases skip <;> simp [matchesFrom] at h
  | cons a r ih =>
    have hr : whole.drop (offset + 1) = r := by rw [← List.drop_drop, ht]; rfl
    cases skip with
    | succ skip =>
      obtain ⟨hm, hs⟩ := ih hr h
      exact ⟨hm, by omega⟩
    | zero =>
      simp only [matchesFrom] at h
      split at h
      · rename_i m' hm'
        rcases List.mem_cons.1 h with rfl | h
        · obtain ⟨_, _, hs, _⟩ := takes_of_matchAt? hm'
          change m.start = offset at hs
          subst hs
          exact ⟨⟨previous, ht ▸ hm'⟩, Nat.le_refl _⟩
        · obtain ⟨hm, hs⟩ := ih hr h
          exact ⟨hm, by omega⟩
      · obtain ⟨hm, hs⟩ := ih hr h
        exact ⟨hm, by omega⟩

/-- Matches that are not empty follow one another without sharing text. -/
theorem pairwise_matchesFrom (hp : 0 < p.minLength) (skip : Nat) (previous : Option Char)
    (offset : Nat) :
    (p.matchesFrom skip previous offset t).Pairwise fun a b => a.stop ≤ b.start := by
  induction t generalizing skip previous offset with
  | nil => cases skip <;> exact .nil
  | cons a r ih =>
    cases skip with
    | succ skip => exact ih skip (some a) (offset + 1)
    | zero =>
      simp only [matchesFrom]
      split
      · rename_i m hm
        refine List.pairwise_cons.2 ⟨fun b hb => ?_, ih _ _ _⟩
        have hb := (mem_matchesFrom (List.replicate (offset + 1) a ++ r) (by simp) hb).2
        obtain ⟨c', ht, hs, he, _⟩ := takes_of_matchAt? hm
        have := ht.minLength_le
        change m.start = offset at hs
        change offset + p.minLength ≤ c'.offset at this
        omega
      · exact ih _ _ _

theorem matchesAt_of_mem_allMatches (h : m ∈ p.allMatches t) : p.MatchesAt t m :=
  (mem_matchesFrom t rfl h).1

theorem pairwise_allMatches (hp : 0 < p.minLength) (t : Text) :
    (p.allMatches t).Pairwise fun a b => a.stop ≤ b.start :=
  pairwise_matchesFrom hp ..

/-- A match that is searched for is one at some place. -/
theorem exists_of_search? (h : p.search? c = some m) : ∃ d, p.matchAt? d = some m := by
  obtain ⟨previous, rest, offset⟩ := c
  simp only [search?] at h
  induction rest generalizing previous offset with
  | nil => exact ⟨_, h⟩
  | cons a r ih =>
    simp only [searchFrom?] at h
    split at h
    · rename_i m' hm
      exact ⟨_, hm.trans h⟩
    · exact ih _ _ h

/-- A match that is searched for lies after the place where the search begins. -/
theorem offset_le_of_search? (h : p.search? c = some m) : c.offset ≤ m.start ∧ m.start ≤ m.stop := by
  obtain ⟨previous, rest, offset⟩ := c
  simp only [search?] at h ⊢
  induction rest generalizing previous offset with
  | nil =>
    obtain ⟨_, _, hs, _, _, he⟩ := takes_of_matchAt? h
    change m.start = offset at hs
    omega
  | cons a r ih =>
    simp only [searchFrom?] at h
    split at h
    · rename_i m' hm
      cases h
      obtain ⟨_, _, hs, _, _, he⟩ := takes_of_matchAt? hm
      change m.start = offset at hs
      omega
    · have := ih _ _ h
      omega

end Pattern
end BackendMigration

/-! The first match of a pattern behind a place: it is a match, and none begins between the two. -/
namespace BackendMigration

namespace Pattern

variable {p : Pattern} {front t : Text} {m : Match}

theorem text_ne_nil_of_matchAt? {c : Cursor} (hp : 0 < p.minLength) (hm : p.matchAt? c = some m) :
    m.text ≠ [] := by
  obtain ⟨c', ht, hs, he, -, hl⟩ := takes_of_matchAt? hm
  have := ht.minLength_le
  rw [Ne, ← List.length_eq_zero_iff]
  omega

theorem search?_between_cons (p : Pattern) (front : Text) (a : Char) (r : Text) :
    p.search? (.between front (a :: r)) =
      (p.matchAt? (.between front (a :: r))).or (p.search? (.between (front ++ [a]) r)) := by
  rw [← Cursor.step_between]
  change p.searchFrom? front.getLast? front.length (a :: r) = _
  rw [searchFrom?]
  cases h : p.matchAt? (.between front (a :: r)) with
  | none =>
    have h : p.matchAt? ⟨front.getLast?, a :: r, front.length⟩ = none := h
    rw [h]
    rfl
  | some m =>
    have h : p.matchAt? ⟨front.getLast?, a :: r, front.length⟩ = some m := h
    rw [h]
    rfl

/-- A pattern matches nowhere in a stretch of text that is followed by another one. -/
def Skips (p : Pattern) (front s back : Text) : Prop :=
  ∀ f g, s = f ++ g → g ≠ [] → p.matchAt? (.between (front ++ f) (g ++ back)) = none

theorem skips_nil (p : Pattern) (front back : Text) : p.Skips front [] back := by
  intro f g h hne
  exact absurd (List.append_eq_nil_iff.1 h.symm).2 hne

theorem skips_cons_iff {a : Char} {s back : Text} : p.Skips front (a :: s) back ↔
    p.matchAt? (.between front (a :: (s ++ back))) = none ∧ p.Skips (front ++ [a]) s back := by
  constructor
  · intro h
    refine ⟨?_, fun f g hs hne => ?_⟩
    · have := h [] (a :: s) rfl (List.cons_ne_nil a s)
      rwa [List.append_nil] at this
    · have := h (a :: f) g (by rw [hs]; rfl) hne
      rwa [← List.singleton_append, ← List.append_assoc] at this
  · rintro ⟨hfirst, hrest⟩ f g hs hne
    cases f with
    | nil =>
      obtain rfl : a :: s = g := hs
      rwa [List.append_nil]
    | cons b f =>
      obtain ⟨rfl, rfl⟩ := List.cons.inj hs
      have := hrest f g rfl hne
      rwa [List.append_assoc] at this

theorem skips_append_iff {s s' back : Text} : p.Skips front (s ++ s') back ↔
    p.Skips front s (s' ++ back) ∧ p.Skips (front ++ s) s' back := by
  induction s generalizing front with
  | nil => simp [skips_nil]
  | cons a s ih =>
    rw [List.cons_append, skips_cons_iff, skips_cons_iff, ih, and_assoc, List.append_assoc,
      List.append_assoc]
    rfl

/-- The search finds the first match. -/
theorem search?_between_eq_some_iff : p.search? (.between front t) = some m ↔
    ∃ s back, t = s ++ back ∧ p.matchAt? (.between (front ++ s) back) = some m ∧ p.Skips front s back := by
  induction t generalizing front with
  | nil =>
    constructor
    · intro h
      exact ⟨[], [], rfl, by rwa [List.append_nil], skips_nil p front []⟩
    · rintro ⟨s, back, h, hm, -⟩
      obtain ⟨rfl, rfl⟩ := List.append_eq_nil_iff.1 h.symm
      rwa [List.append_nil] at hm
  | cons a r ih =>
    rw [search?_between_cons, Option.or_eq_some_iff, ih]
    constructor
    · rintro (h | ⟨hnone, s, back, rfl, hm, hskip⟩)
      · exact ⟨[], a :: r, rfl, by rwa [List.append_nil], skips_nil p front _⟩
      · refine ⟨a :: s, back, rfl, ?_, skips_cons_iff.2 ⟨hnone, hskip⟩⟩
        rwa [List.append_assoc] at hm
    · rintro ⟨s, back, h, hm, hskip⟩
      cases s with
      | nil =>
        obtain rfl : a :: r = back := h
        rw [List.append_nil] at hm
        exact .inl hm
      | cons b s =>
        obtain ⟨rfl, rfl⟩ := List.cons.inj h
        obtain ⟨hnone, hrest⟩ := skips_cons_iff.1 hskip
        refine .inr ⟨hnone, s, back, rfl, ?_, hrest⟩
        rwa [List.append_assoc]

/-! A repetition takes as much as it can. -/

theorem repeatThen_one {α : Type} {k : CharClass} {go : Cursor → Parts → Option α}
    (hgo : ∀ c g, (go c g).isSome = true) {bound : Nat} (hbound : t.length ≤ bound) (g : Parts) :
    repeatThen (one k).matchThen go bound (.between front t) g =
      go (.between (front ++ t.takeWhile k.holds) (t.dropWhile k.holds)) g := by
  induction t generalizing front bound with
  | nil =>
    rw [List.takeWhile_nil, List.dropWhile_nil, List.append_nil]
    cases bound with
    | zero => rfl
    | succ bound => rfl
  | cons a t ih =>
    obtain ⟨bound, rfl⟩ : ∃ b, bound = b + 1 := ⟨bound - 1, by rw [List.length_cons] at hbound; omega⟩
    have ih := @ih (front ++ [a]) bound (by simpa using hbound)
    by_cases ha : k.holds a = true
    · have hstep : Cursor.step? k (.between front (a :: t)) = some (.between (front ++ [a]) t) := by
        rw [← Cursor.step_between]
        exact if_pos ha
      have hlt : (Cursor.between front (a :: t)).offset < (Cursor.between (front ++ [a]) t).offset := by
        simp [Cursor.between]
      obtain ⟨b, hb⟩ := Option.isSome_iff_exists.1
        (hgo (.between (front ++ [a] ++ t.takeWhile k.holds) (t.dropWhile k.holds)) g)
      rw [hb] at ih
      have htake : front ++ (a :: t).takeWhile k.holds = front ++ [a] ++ t.takeWhile k.holds := by
        rw [List.takeWhile_cons_of_pos ha, List.append_assoc]
        rfl
      rw [repeatThen, matchThen, hstep, htake, List.dropWhile_cons_of_pos ha, hb]
      dsimp only
      rw [if_pos hlt, ih]
    · have hstep : Cursor.step? k (.between front (a :: t)) = none := if_neg ha
      rw [repeatThen, matchThen, hstep, List.takeWhile_cons_of_neg ha, List.dropWhile_cons_of_neg ha,
        List.append_nil]

/-- Where all that follows is accepted, characters are taken as long as the class goes. -/
theorem matchThen_many_one {α : Type} {k : CharClass} {go : Cursor → Parts → Option α}
    (hgo : ∀ c g, (go c g).isSome = true) (g : Parts) :
    (many (one k)).matchThen go (.between front t) g =
      go (.between (front ++ t.takeWhile k.holds) (t.dropWhile k.holds)) g :=
  repeatThen_one hgo (Nat.le_refl _) g

end Pattern
end BackendMigration
