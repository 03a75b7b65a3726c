import BackendMigration.Text.Lines
import Mathlib.Data.List.Basic

/-! Texts put together of others: what is left of them after trimming, cutting and the reading of lines. -/
namespace BackendMigration.Text

variable {drop drop' cut : Char → Bool} {c : Char} {t u w : Text}

/-! Trimming. -/

/-- Trimming at the back stops at a character that stays. -/
theorem trimEnd_append (hc : drop c = false) (front t : Text) :
    trimEnd drop (front ++ c :: t) = front ++ c :: trimEnd drop t := by
  have hsplit : (front ++ c :: t).reverse = t.reverse ++ (c :: front.reverse) := by simp
  rw [trimEnd, hsplit, List.dropWhile_append]
  split
  · rename_i hnil
    have hnone : t.reverse.dropWhile drop = [] := List.isEmpty_iff.1 hnil
    rw [trimEnd, hnone]
    simp [hc]
  · simp [trimEnd]

theorem trimEnd_eq_nil (h : ∀ c ∈ t, drop c = true) : trimEnd drop t = [] := by
  have hnil := (trimStart_eq_nil_iff drop t.reverse).2 fun c hc => h c (List.mem_reverse.1 hc)
  rw [trimEnd]
  exact congrArg List.reverse hnil

/-- A text with a first and a last character that trimming leaves. -/
structure Firm (drop : Char → Bool) (t : Text) : Prop where
  ne_nil : t ≠ []
  first : t.head?.any drop = false
  last : t.getLast?.any drop = false

theorem Firm.mono (h : Firm drop t) (hdrop : ∀ c ∈ t, drop c = false → drop' c = false) :
    Firm drop' t := by
  obtain ⟨hne, hfirst, hlast⟩ := h
  refine ⟨hne, ?_, ?_⟩
  · obtain ⟨a, r, rfl⟩ := List.exists_cons_of_ne_nil hne
    exact hdrop a List.mem_cons_self hfirst
  · rw [List.getLast?_eq_some_getLast hne] at hlast ⊢
    exact hdrop _ (List.getLast_mem hne) hlast

theorem Firm.append (ht : Firm drop t) (hu : Firm drop u) (w : Text) : Firm drop (t ++ (w ++ u)) := by
  refine ⟨by simp [ht.ne_nil], ?_, ?_⟩
  · obtain ⟨a, r, rfl⟩ := List.exists_cons_of_ne_nil ht.ne_nil
    exact ht.first
  · rw [← List.append_assoc, List.getLast?_append_of_ne_nil _ hu.ne_nil]
    exact hu.last

/-! Trimming takes away from what stands around a firm text only. -/

theorem Firm.trimStart_append (h : Firm drop t) (front back : Text) :
    trimStart drop (front ++ (t ++ back)) = trimStart drop front ++ (t ++ back) := by
  obtain ⟨a, r, rfl⟩ := List.exists_cons_of_ne_nil h.ne_nil
  have ha : drop a = false := h.first
  rw [trimStart, List.dropWhile_append]
  split
  · rename_i hnil
    have hnone : trimStart drop front = [] := List.isEmpty_iff.1 hnil
    rw [hnone, List.cons_append, List.dropWhile_cons_of_neg (by simp [ha])]
    rfl
  · rfl

theorem Firm.trimEnd_append (h : Firm drop t) (front back : Text) :
    trimEnd drop (front ++ (t ++ back)) = front ++ (t ++ trimEnd drop back) := by
  rcases List.eq_nil_or_concat t with rfl | ⟨r, a, rfl⟩
  · exact absurd rfl h.ne_nil
  · have ha : drop a = false := by simpa using h.last
    have hend := Text.trimEnd_append ha (front ++ r) back
    simpa using hend

theorem Firm.trim_append (h : Firm drop t) (front back : Text) :
    trim drop (front ++ (t ++ back)) = trimStart drop front ++ (t ++ trimEnd drop back) := by
  rw [trim, h.trimStart_append, h.trimEnd_append]

theorem Firm.trim_eq (h : Firm drop t) {front back : Text} (hfront : ∀ c ∈ front, drop c = true)
    (hback : ∀ c ∈ back, drop c = true) : trim drop (front ++ (t ++ back)) = t := by
  rw [h.trim_append, (trimStart_eq_nil_iff drop front).2 hfront, trimEnd_eq_nil hback, List.nil_append,
    List.append_nil]

/-- A text is what is left of it after stripping, with white space around. -/
theorem exists_strip (t : Text) :
    ∃ w w', t = w ++ (strip t ++ w') ∧ allBlank w = true ∧ allBlank w' = true := by
  refine ⟨t.takeWhile isBlank, ((t.dropWhile isBlank).reverse.takeWhile isBlank).reverse, ?_,
    List.all_takeWhile, ?_⟩
  · rw [strip, trim, trimEnd, trimStart, ← List.reverse_append, List.takeWhile_append_dropWhile,
      List.reverse_reverse, List.takeWhile_append_dropWhile]
  · rw [allBlank, List.all_reverse]
    exact List.all_takeWhile

theorem mem_strip (h : c ∈ t) (hc : isBlank c = false) : c ∈ strip t := by
  obtain ⟨w, w', ht, hw, hw'⟩ := exists_strip t
  have hnot {b : Text} (hb : allBlank b = true) : c ∉ b := by
    intro hmem
    rw [List.all_eq_true.1 hb c hmem] at hc
    cases hc
  rw [ht, List.mem_append, List.mem_append] at h
  exact (h.resolve_left (hnot hw)).resolve_right (hnot hw')

/-! Cutting. -/

/-- A text is cut into the pieces on both sides of any character to cut at. -/
theorem splitBy_append (hc : cut c = true) (s t : Text) :
    splitBy cut (s ++ c :: t) = splitBy cut s ++ splitBy cut t := by
  induction s with
  | nil => simp [splitBy, hc]
  | cons a s ih =>
    by_cases ha : cut a = true
    · simp [splitBy, ha, ih]
    · rw [List.cons_append, splitBy, splitBy, if_neg ha, if_neg ha, ih]
      cases hs : splitBy cut s with
      | nil => exact absurd hs (splitBy_ne_nil cut s)
      | cons piece pieces => rfl

theorem splitBy_append_cons (hw : ∀ a ∈ w, cut a = false) (hc : cut c = true) (t : Text) :
    splitBy cut (w ++ c :: t) = w :: splitBy cut t := by
  rw [splitBy_append hc, splitBy_of_not_cut hw, List.singleton_append]

theorem eq_false_of_mem_splitBy {piece : Text} (h : piece ∈ splitBy cut t) :
    ∀ a ∈ piece, cut a = false := by
  fun_induction splitBy cut t generalizing piece with
  | case1 =>
    have hnil : piece = [] := List.mem_singleton.1 h
    simp [hnil]
  | case2 d t hd ih =>
    rcases List.mem_cons.1 h with hnil | h
    · simp [hnil]
    · exact ih h
  | case3 d t hd hsplit => exact absurd hsplit (splitBy_ne_nil cut t)
  | case4 d t hd first rest hsplit ih =>
    rw [hsplit] at ih
    rcases List.mem_cons.1 h with hfirst | h
    · have hd' : cut d = false := Bool.eq_false_iff.2 hd
      rw [hfirst, List.forall_mem_cons]
      exact ⟨hd', ih List.mem_cons_self⟩
    · exact ih (List.mem_cons_of_mem first h)

theorem eq_of_cutAt? (h : cutAt? c t = some (u, w)) : t = u ++ c :: w := by
  induction t generalizing u with
  | nil => cases h
  | cons d t ih =>
    rw [cutAt?] at h
    split at h
    · rename_i hd
      cases h
      rw [hd, List.nil_append]
    · obtain ⟨⟨u', w'⟩, hcut, hpair⟩ := Option.map_eq_some_iff.1 h
      cases hpair
      rw [ih hcut, List.cons_append]

theorem cutAt?_eq_none (h : c ∉ t) : cutAt? c t = none := by
  induction t with
  | nil => rfl
  | cons d t ih =>
    obtain ⟨hd, ht⟩ := not_or.1 (mt List.mem_cons.2 h)
    rw [cutAt?, if_neg (Ne.symm hd), ih ht, Option.map_none]

theorem exists_mem_splitBy (cut : Char → Bool) (h : c ∈ t) (hc : cut c = false) :
    ∃ piece ∈ splitBy cut t, c ∈ piece := by
  induction t with
  | nil => cases h
  | cons d t ih =>
    rw [splitBy]
    split
    · rename_i hd
      rcases List.mem_cons.1 h with rfl | h
      · rw [hc] at hd
        cases hd
      · obtain ⟨piece, hpiece, hmem⟩ := ih h
        exact ⟨piece, List.mem_cons_of_mem _ hpiece, hmem⟩
    · split
      · rename_i hnil
        exact absurd hnil (splitBy_ne_nil cut t)
      · rename_i piece pieces hsplit
        rcases List.mem_cons.1 h with rfl | h
        · exact ⟨_, List.mem_cons_self, List.mem_cons_self⟩
        · obtain ⟨p, hp, hmem⟩ := ih h
          rw [hsplit] at hp
          rcases List.mem_cons.1 hp with rfl | hp
          · exact ⟨_, List.mem_cons_self, List.mem_cons_of_mem d hmem⟩
          · exact ⟨p, List.mem_cons_of_mem _ hp, hmem⟩

theorem join_cons (separator t : Text) (ts : List Text) :
    join separator (t :: ts) = t ++ ts.flatMap (separator ++ ·) := by
  induction ts generalizing t with
  | nil => simp [join]
  | cons s ts ih => simp [join, ih]

/-- Pieces that are joined by a character to cut at are cut apart again. -/
theorem splitBy_join {ts : List Text} (hne : ts ≠ []) (hc : cut c = true)
    (hts : ∀ t ∈ ts, ∀ a ∈ t, cut a = false) : splitBy cut (join [c] ts) = ts := by
  induction ts with
  | nil => exact absurd rfl hne
  | cons t ts ih =>
    have ht := hts t List.mem_cons_self
    cases ts with
    | nil => exact splitBy_of_not_cut ht
    | cons s ts =>
      have hjoin : join [c] (t :: s :: ts) = t ++ c :: join [c] (s :: ts) := by simp [join]
      rw [hjoin, splitBy_append_cons ht hc,
        ih (List.cons_ne_nil s ts) fun u hu => hts u (List.mem_cons_of_mem t hu)]

/-! Lines. -/

theorem normalizeNewlines_of_not_mem {t : Text} (h : '\r' ∉ t) : normalizeNewlines t = t := by
  fun_induction normalizeNewlines t with
  | case1 | case2 => simp at h
  | case3 c r _ _ ih => rw [ih fun hr => h (List.mem_cons_of_mem c hr)]
  | case4 => rfl

/-- What is read off lines, and is nothing for an empty one, is read off the text that they make up. -/
theorem filterMap_wideLines_join {α : Type} {f : Text → Option α} (hf : f [] = none) {ts : List Text}
    (hts : ∀ t ∈ ts, ∀ a ∈ t, endsLine a = false) :
    (wideLines (join ['\n'] ts)).filterMap f = ts.filterMap f := by
  have hreturn : '\r' ∉ join ['\n'] ts := by
    cases ts with
    | nil => exact List.not_mem_nil
    | cons t ts =>
      intro h
      rw [join_cons, List.mem_append, List.mem_flatMap] at h
      rcases h with h | ⟨s, hs, h⟩
      · exact absurd (hts t List.mem_cons_self _ h) (by decide)
      · rcases List.mem_cons.1 h with h | h
        · exact absurd h (by decide)
        · exact absurd (hts s (List.mem_cons_of_mem t hs) _ h) (by decide)
  have hpieces : (splitBy endsLine (join ['\n'] ts)).filterMap f = ts.filterMap f := by
    cases ts with
    | nil => simp [join, splitBy, hf]
    | cons t ts => rw [splitBy_join (List.cons_ne_nil t ts) (by decide) hts]
  rw [wideLines, normalizeNewlines_of_not_mem hreturn]
  split
  · rename_i hlast
    obtain ⟨pieces, hsplit⟩ := List.getLast?_eq_some_iff.1 hlast
    rw [hsplit, List.dropLast_concat, ← hpieces, hsplit, List.filterMap_append]
    simp [hf]
  · exact hpieces

end BackendMigration.Text

/-! Texts of words with white space between them: there is one way to read them as such. -/
namespace BackendMigration.Text

/-- White space, at least one character. -/
def IsGap (b : Text) : Prop := b ≠ [] ∧ allBlank b = true

/-- At least one character, and no white space. -/
def IsSolid (w : Text) : Prop := w ≠ [] ∧ ∀ c ∈ w, isBlank c = false

/-- The words with gaps between them. -/
inductive Spaced : List Text → Text → Prop
  | last (w : Text) : Spaced [w] w
  | cons (w : Text) {b t : Text} {ws : List Text} : IsGap b → Spaced ws t → Spaced (w :: ws) (w ++ (b ++ t))

/-- The pieces of a text between white space. -/
def words (t : Text) : List Text := (splitBy isBlank t).filter fun w => !w.isEmpty

variable {w b t : Text} {ws vs : List Text}

theorem words_of_isSolid (h : IsSolid w) : words w = [w] := by
  rw [words, splitBy_of_not_cut h.2]
  simp [h.1]

theorem words_append_of_allBlank (h : allBlank b = true) (t : Text) : words (b ++ t) = words t := by
  induction b with
  | nil => rfl
  | cons c b ih =>
    rw [allBlank, List.all_cons, Bool.and_eq_true] at h
    have hsplit : splitBy isBlank (c :: (b ++ t)) = [] :: splitBy isBlank (b ++ t) :=
      splitBy_append_cons (List.forall_mem_nil _) h.1 (b ++ t)
    have ih := ih h.2
    rw [words, List.cons_append, hsplit]
    exact ih

theorem words_cons (hw : IsSolid w) (hb : IsGap b) (t : Text) :
    words (w ++ (b ++ t)) = w :: words t := by
  obtain ⟨c, r, rfl⟩ := List.exists_cons_of_ne_nil hb.1
  obtain ⟨hc, hr⟩ := Bool.and_eq_true_iff.1 hb.2
  rw [← words_append_of_allBlank hr t, words, List.cons_append, splitBy_append_cons hw.2 hc]
  simp [words, hw.1]

theorem Spaced.words_eq (h : Spaced ws t) (hws : ∀ w ∈ ws, IsSolid w) : words t = ws := by
  induction h with
  | last w => exact words_of_isSolid (hws w List.mem_cons_self)
  | cons w hb _ ih =>
    rw [words_cons (hws w List.mem_cons_self) hb, ih fun v hv => hws v (List.mem_cons_of_mem w hv)]

/-- Words joined by a gap. -/
theorem spaced_join (hb : IsGap b) (h : ws ≠ []) : Spaced ws (join b ws) := by
  induction ws with
  | nil => exact absurd rfl h
  | cons w ws ih =>
    cases ws with
    | nil => exact .last w
    | cons v ws =>
      have hrest := Spaced.cons w hb (ih (List.cons_ne_nil v ws))
      rwa [← List.append_assoc] at hrest

/-! A text of words has no white space around it. -/

theorem IsSolid.firm (h : IsSolid w) : Firm isBlank w where
  ne_nil := h.1
  first := by
    obtain ⟨a, r, rfl⟩ := List.exists_cons_of_ne_nil h.1
    exact h.2 a List.mem_cons_self
  last := by
    rw [List.getLast?_eq_some_getLast h.1]
    exact h.2 _ (List.getLast_mem h.1)

theorem Spaced.firm (h : Spaced ws t) (hws : ∀ w ∈ ws, IsSolid w) : Firm isBlank t := by
  induction h with
  | last w => exact (hws w List.mem_cons_self).firm
  | @cons w b _ _ _ _ ih =>
    exact (hws w List.mem_cons_self).firm.append (ih fun v hv => hws v (List.mem_cons_of_mem w hv)) b

theorem Spaced.strip_eq (h : Spaced ws t) (hws : ∀ w ∈ ws, IsSolid w) : strip t = t := by
  have hnone : ∀ c ∈ ([] : Text), isBlank c = true := by simp
  have htrim := (h.firm hws).trim_eq hnone hnone
  rwa [List.nil_append, List.append_nil] at htrim

end BackendMigration.Text
