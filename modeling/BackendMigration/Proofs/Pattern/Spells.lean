import BackendMigration.Proofs.Pattern.Takes

/-! What a pattern can take, as a text: fixed texts and white space. -/
namespace BackendMigration

open Text

namespace Pattern

/-- A pattern can take a text, if its conditions on what stands around it allow that. -/
def Spells : Pattern → Text → Prop
  | one k, t => ∃ a, k.holds a = true ∧ t = [a]
  | seq p q, t => ∃ u v, p.Spells u ∧ q.Spells v ∧ t = u ++ v
  | alt p q, t => p.Spells t ∨ q.Spells t
  | many p, t => ∃ ts : List Text, (∀ u ∈ ts, p.Spells u) ∧ t = ts.flatten
  | part _ p, t => p.Spells t
  | nothing, t | wordEdge, t | notAfter _, t | before _, t | atEnd, t => t = []

variable {p : Pattern} {c c' : Cursor} {t : Text}

theorem Takes.spells (h : Takes p c c') : ∃ t, p.Spells t ∧ c.rest = t ++ c'.rest := by
  induction h with
  | nothing | wordEdge | notAfter | before | atEnd => exact ⟨[], rfl, rfl⟩
  | done => exact ⟨[], ⟨[], nofun, rfl⟩, rfl⟩
  | @one k c c' hs =>
    unfold Cursor.step? at hs
    split at hs
    · cases hs
    · rename_i a r hr
      split at hs
      · rename_i ha
        cases hs
        exact ⟨[a], ⟨a, ha, rfl⟩, hr⟩
      · cases hs
  | seq _ _ ihp ihq =>
    obtain ⟨u, hu, hcu⟩ := ihp
    obtain ⟨v, hv, hcv⟩ := ihq
    exact ⟨u ++ v, ⟨u, v, hu, hv, rfl⟩, by rw [hcu, hcv, List.append_assoc]⟩
  | left _ ih =>
    obtain ⟨t, ht, hc⟩ := ih
    exact ⟨t, .inl ht, hc⟩
  | right _ ih =>
    obtain ⟨t, ht, hc⟩ := ih
    exact ⟨t, .inr ht, hc⟩
  | again _ _ _ ihp ihq =>
    obtain ⟨u, hu, hcu⟩ := ihp
    obtain ⟨_, ⟨ts, hts, rfl⟩, hcv⟩ := ihq
    refine ⟨u ++ ts.flatten, ⟨u :: ts, ?_, rfl⟩, by rw [hcu, hcv, List.append_assoc]⟩
    intro v hv
    rcases List.mem_cons.1 hv with rfl | hv
    · exact hu
    · exact hts v hv
  | part _ ih => exact ih

theorem spells_of_matchAt? {m : Match} (h : p.matchAt? c = some m) : p.Spells m.text := by
  obtain ⟨c', ht, -, -, hr, -⟩ := takes_of_matchAt? h
  obtain ⟨t, hs, hc⟩ := ht.spells
  rw [hr, List.append_cancel_right_eq] at hc
  rwa [hc]

theorem spells_concat_cons {ps : List Pattern} :
    (concat (p :: ps)).Spells t ↔ ∃ u v, p.Spells u ∧ (concat ps).Spells v ∧ t = u ++ v := Iff.rfl

theorem spells_concat_nil : (concat []).Spells t ↔ t = [] := Iff.rfl

theorem exists_of_spells_concat_append {ps qs : List Pattern} (h : (concat (ps ++ qs)).Spells t) :
    ∃ u v, t = u ++ v ∧ (concat qs).Spells v := by
  induction ps generalizing t with
  | nil => exact ⟨[], t, rfl, h⟩
  | cons p ps ih =>
    obtain ⟨u, v, -, hv, rfl⟩ := spells_concat_cons.1 h
    obtain ⟨w, x, rfl, hx⟩ := ih hv
    exact ⟨u ++ w, x, (List.append_assoc ..).symm, hx⟩

theorem spells_text {s : String} : (text s).Spells t ↔ t = s.toList := by
  unfold text
  induction s.toList generalizing t with
  | nil => exact spells_concat_nil
  | cons a r ih =>
    rw [List.map_cons, spells_concat_cons]
    constructor
    · rintro ⟨u, v, ⟨b, hb, rfl⟩, hv, rfl⟩
      rw [ih.1 hv, beq_iff_eq.1 hb]
      rfl
    · rintro rfl
      exact ⟨[a], r, ⟨a, beq_self_eq_true a, rfl⟩, ih.2 rfl, rfl⟩

theorem spells_blanks : blanks.Spells t ↔ allBlank t = true := by
  rw [allBlank, List.all_eq_true]
  constructor
  · rintro ⟨ts, hts, rfl⟩ a ha
    obtain ⟨u, hu, hau⟩ := List.mem_flatten.1 ha
    obtain ⟨b, hb, rfl⟩ := hts u hu
    rw [List.mem_singleton.1 hau]
    exact hb
  · intro h
    refine ⟨t.map fun a => [a], ?_, (List.flatMap_singleton' t).symm⟩
    intro u hu
    obtain ⟨a, ha, rfl⟩ := List.mem_map.1 hu
    exact ⟨a, h a ha, rfl⟩

theorem spells_someBlanks : someBlanks.Spells t ↔ allBlank t = true ∧ t ≠ [] := by
  constructor
  · rintro ⟨u, v, ⟨a, ha, rfl⟩, hv, rfl⟩
    refine ⟨?_, by simp⟩
    have hv := spells_blanks.1 hv
    have ha : isBlank a = true := ha
    simpa [allBlank, ha] using hv
  · rintro ⟨h, hne⟩
    obtain ⟨a, r, rfl⟩ := List.exists_cons_of_ne_nil hne
    rw [allBlank, List.all_cons, Bool.and_eq_true] at h
    exact ⟨[a], r, ⟨a, h.1, rfl⟩, spells_blanks.2 h.2, rfl⟩

theorem spells_opening : opening.Spells t ↔ ∃ b, allBlank b = true ∧ t = b ++ ['('] := by
  constructor
  · rintro ⟨b, v, hb, hv, rfl⟩
    exact ⟨b, spells_blanks.1 hb, by rw [spells_text.1 hv]; rfl⟩
  · rintro ⟨b, hb, rfl⟩
    exact ⟨b, ['('], spells_blanks.2 hb, spells_text.2 rfl, rfl⟩

theorem spells_point : point.Spells t ↔
    ∃ b b', allBlank b = true ∧ allBlank b' = true ∧ t = b ++ '.' :: b' := by
  constructor
  · rintro ⟨b, _, hb, ⟨_, _, hv, ⟨b', _, hb', rfl, rfl⟩, rfl⟩, rfl⟩
    refine ⟨b, b', spells_blanks.1 hb, spells_blanks.1 hb', ?_⟩
    rw [spells_text.1 hv, List.append_nil]
    rfl
  · rintro ⟨b, b', hb, hb', rfl⟩
    exact ⟨b, '.' :: b', spells_blanks.2 hb, ⟨['.'], b', spells_text.2 rfl,
      ⟨b', [], spells_blanks.2 hb', rfl, by simp⟩, rfl⟩, rfl⟩

/-- Every text that the pattern can take ends in the character. -/
def endsWith : Pattern → Char → Bool
  | one (.only a), c => a == c
  | seq p q, c => q.endsWith c || (decide (q = nothing) && p.endsWith c)
  | alt p q, c => p.endsWith c && q.endsWith c
  | part _ p, c => p.endsWith c
  | _, _ => false

theorem exists_of_endsWith {a : Char} (h : p.endsWith a = true) (ht : p.Spells t) : ∃ u, t = u ++ [a] := by
  fun_induction endsWith p a generalizing t with
  | case1 b a =>
    obtain ⟨c, hc, rfl⟩ := ht
    exact ⟨[], by rw [beq_iff_eq.1 hc, beq_iff_eq.1 h]; rfl⟩
  | case2 p q a ihq ihp =>
    obtain ⟨u, v, hu, hv, rfl⟩ := ht
    rw [Bool.or_eq_true, Bool.and_eq_true, decide_eq_true_eq] at h
    rcases h with h | ⟨rfl, h⟩
    · obtain ⟨w, rfl⟩ := ihq h hv
      exact ⟨u ++ w, (List.append_assoc ..).symm⟩
    · obtain rfl : v = [] := hv
      rw [List.append_nil]
      exact ihp h hu
  | case3 p q a ihp ihq =>
    rw [Bool.and_eq_true] at h
    exact ht.elim (ihp h.1) (ihq h.2)
  | case4 name p a ih => exact ih h ht
  | case5 => cases h

/-! Ways through a text. -/

theorem Takes.exists_between {front back : Text} (h : Takes p (.between front back) c') :
    ∃ s r, p.Spells s ∧ back = s ++ r ∧ c' = .between (front ++ s) r := by
  obtain ⟨s, hs, hback⟩ := h.spells
  obtain ⟨s', hback', hoffset⟩ := h.rest_eq
  obtain rfl := List.append_cancel_right (hback.symm.trans hback')
  have hback : back = s ++ c'.rest := hback
  have hend := h.eq_advance
  rw [hoffset, Nat.add_sub_cancel_left] at hend
  refine ⟨s, c'.rest, hs, hback, ?_⟩
  rw [← Cursor.advance_between, ← hback]
  exact hend

theorem takes_seq_iff {q : Pattern} : Takes (seq p q) c c' ↔ ∃ d, Takes p c d ∧ Takes q d c' := by
  constructor
  · intro h
    cases h with
    | seq hp hq => exact ⟨_, hp, hq⟩
  · rintro ⟨d, hp, hq⟩
    exact .seq hp hq

theorem takes_alt_iff {q : Pattern} : Takes (alt p q) c c' ↔ Takes p c c' ∨ Takes q c c' := by
  constructor
  · intro h
    cases h with
    | left h => exact .inl h
    | right h => exact .inr h
  · rintro (h | h)
    · exact .left h
    · exact .right h

theorem takes_nothing_iff : Takes nothing c c' ↔ c' = c := by
  constructor
  · intro h
    cases h
    rfl
  · rintro rfl
    exact .nothing _

theorem takes_optional_iff : Takes (optional p) c c' ↔ Takes p c c' ∨ c' = c :=
  takes_alt_iff.trans (or_congr_right takes_nothing_iff)

theorem takes_wordEdge_iff : Takes wordEdge c c' ↔ c.isWordEdge = true ∧ c' = c := by
  constructor
  · intro h
    cases h with
    | wordEdge h => exact ⟨h, rfl⟩
  · rintro ⟨h, rfl⟩
    exact .wordEdge h

theorem takes_one {k : CharClass} {a : Char} (h : k.holds a = true) (front back : Text) :
    Takes (one k) (.between front (a :: back)) (.between (front ++ [a]) back) := by
  refine .one ?_
  simp [Cursor.step?, Cursor.between, h]

theorem takes_text (s : String) (front back : Text) :
    Takes (text s) (.between front (s.toList ++ back)) (.between (front ++ s.toList) back) := by
  unfold text
  induction s.toList generalizing front with
  | nil =>
    rw [List.append_nil]
    exact .nothing _
  | cons a r ih =>
    have h := ih (front ++ [a])
    rw [List.append_assoc, List.singleton_append] at h
    have ha : (CharClass.only a).holds a = true := beq_self_eq_true a
    exact .seq (takes_one ha _ _) h

theorem takes_many_one {k : CharClass} {s : Text} (hs : ∀ a ∈ s, k.holds a = true) (front back : Text) :
    Takes (many (one k)) (.between front (s ++ back)) (.between (front ++ s) back) := by
  induction s generalizing front with
  | nil =>
    rw [List.append_nil]
    exact .done _ _
  | cons a r ih =>
    have h := ih (fun b hb => hs b (List.mem_cons_of_mem a hb)) (front ++ [a])
    rw [List.append_assoc, List.singleton_append] at h
    exact .again (takes_one (hs a List.mem_cons_self) _ _) (by simp [Cursor.between]) h

theorem takes_blanks {b : Text} (hb : allBlank b = true) (front back : Text) :
    Takes blanks (.between front (b ++ back)) (.between (front ++ b) back) := by
  rw [allBlank, List.all_eq_true] at hb
  exact takes_many_one hb front back

theorem takes_someBlanks {b : Text} (hb : allBlank b = true) (hne : b ≠ []) (front back : Text) :
    Takes someBlanks (.between front (b ++ back)) (.between (front ++ b) back) := by
  obtain ⟨a, r, rfl⟩ := List.exists_cons_of_ne_nil hne
  rw [allBlank, List.all_cons, Bool.and_eq_true] at hb
  have h := takes_blanks hb.2 (front ++ [a]) back
  rw [List.append_assoc, List.singleton_append] at h
  have ha : CharClass.blank.holds a = true := hb.1
  exact .seq (takes_one ha _ _) h

end Pattern
end BackendMigration
