import BackendMigration.Pattern.Match

/-! What a pattern can take from a text, apart from the order in which choices are tried. -/
namespace BackendMigration

namespace Cursor

/-- The place between two texts. -/
def between (front back : Text) : Cursor := ⟨front.getLast?, back, front.length⟩

theorem rest_advance (n : Nat) (c : Cursor) : (c.advance n).rest = c.rest.drop n := by
  induction n generalizing c with
  | zero => rfl
  | succ n ih =>
    unfold advance
    split
    · rename_i h
      simp [h]
    · rename_i a r h
      rw [ih, h, List.drop_succ_cons]

theorem previous_advance (n : Nat) (c : Cursor) :
    (c.advance n).previous = (c.rest.take n).getLast?.or c.previous := by
  induction n generalizing c with
  | zero => simp [advance]
  | succ n ih =>
    unfold advance
    split
    · rename_i h
      simp [h]
    · rename_i a r h
      rw [ih, h, List.take_succ_cons, List.getLast?_cons]
      cases (List.take n r).getLast? <;> rfl

theorem advance_of_rest_eq_nil {c : Cursor} (h : c.rest = []) (n : Nat) : c.advance n = c := by
  cases n with
  | zero => rfl
  | succ n => simp [advance, h]

theorem advance_add (m n : Nat) (c : Cursor) : c.advance (m + n) = (c.advance m).advance n := by
  induction m generalizing c with
  | zero => simp [advance]
  | succ m ih =>
    cases hr : c.rest with
    | nil => simp only [advance_of_rest_eq_nil hr]
    | cons a r =>
      have hstep (k : Nat) : c.advance (k + 1) = advance k ⟨some a, r, c.offset + 1⟩ := by
        simp [advance, hr]
      rw [Nat.succ_add, hstep, hstep, ih]

theorem start_eq (t : Text) : start t = between [] t := rfl

theorem step_between (front : Text) (a : Char) (r : Text) :
    (⟨some a, r, front.length + 1⟩ : Cursor) = between (front ++ [a]) r := by
  simp [between]

theorem advance_between (front s t : Text) :
    (between front (s ++ t)).advance s.length = between (front ++ s) t := by
  induction s generalizing front with
  | nil => simp [advance]
  | cons a s ih =>
    have h := ih (front ++ [a])
    rw [List.append_assoc, ← step_between] at h
    exact h

end Cursor

namespace Pattern

/-- A pattern leads from one place to another. -/
inductive Takes : Pattern → Cursor → Cursor → Prop
  | nothing (c : Cursor) : Takes nothing c c
  | one {k : CharClass} {c c' : Cursor} : c.step? k = some c' → Takes (one k) c c'
  | seq {p q : Pattern} {c c' c'' : Cursor} : Takes p c c' → Takes q c' c'' → Takes (seq p q) c c''
  | left {p q : Pattern} {c c' : Cursor} : Takes p c c' → Takes (alt p q) c c'
  | right {p q : Pattern} {c c' : Cursor} : Takes q c c' → Takes (alt p q) c c'
  | done (p : Pattern) (c : Cursor) : Takes (many p) c c
  | again {p : Pattern} {c c' c'' : Cursor} : Takes p c c' → c.offset < c'.offset →
      Takes (many p) c' c'' → Takes (many p) c c''
  | part {name : String} {p : Pattern} {c c' : Cursor} : Takes p c c' → Takes (part name p) c c'
  | wordEdge {c : Cursor} : c.isWordEdge = true → Takes wordEdge c c
  | notAfter {k : CharClass} {c : Cursor} : c.previous.any k.holds = false → Takes (notAfter k) c c
  | before {k : CharClass} {c : Cursor} : c.rest.head?.any k.holds = true → Takes (before k) c c
  | atEnd {c : Cursor} : c.rest.isEmpty = true → Takes atEnd c c

variable {α : Type} {p : Pattern} {c c' : Cursor}

/-- The named parts of a pattern. -/
def parts : Pattern → List (String × Pattern)
  | part name p => (name, p) :: p.parts
  | seq p q | alt p q => p.parts ++ q.parts
  | many p => p.parts
  | nothing | one _ | wordEdge | notAfter _ | before _ | atEnd => []

/-- A text under a name that one of some parts took. -/
def Took (parts : List (String × Pattern)) (e : String × Text) : Prop :=
  ∃ q c c', (e.1, q) ∈ parts ∧ Takes q c c' ∧ e.2 = c.rest.take (c'.offset - c.offset)

theorem Took.mono {parts parts' : List (String × Pattern)} {e : String × Text} (h : Took parts e)
    (hsub : parts ⊆ parts') : Took parts' e := by
  obtain ⟨q, c, c', hq, ht, he⟩ := h
  exact ⟨q, c, c', hsub hq, ht, he⟩

/-- The way that a match takes is one that the pattern can take, and what it adds to what is kept is what
parts of the pattern took. -/
theorem took_of_matchThen {k : Cursor → Parts → Option α} {g : Parts} {a : α}
    (h : p.matchThen k c g = some a) : ∃ c' added, Takes p c c' ∧ k c' (added ++ g) = some a ∧
      ∀ e ∈ added, Took p.parts e := by
  induction p generalizing k c g with
  | nothing => exact ⟨c, [], .nothing c, h, nofun⟩
  | one cls =>
    simp only [matchThen] at h
    split at h
    · rename_i c' hc
      exact ⟨c', [], .one hc, h, nofun⟩
    · cases h
  | seq p q ihp ihq =>
    obtain ⟨c', added, hp, h', hadded⟩ := ihp h
    obtain ⟨c'', added', hq, h'', hadded'⟩ := ihq h'
    refine ⟨c'', added' ++ added, .seq hp hq, by rwa [List.append_assoc], fun e he => ?_⟩
    rcases List.mem_append.1 he with he | he
    · exact (hadded' e he).mono (List.subset_append_right _ _)
    · exact (hadded e he).mono (List.subset_append_left _ _)
  | alt p q ihp ihq =>
    simp only [matchThen] at h
    split at h
    · rename_i b hb
      obtain ⟨c', added, hp, h', hadded⟩ := ihp (hb.trans h)
      exact ⟨c', added, .left hp, h',
        fun e he => (hadded e he).mono (List.subset_append_left _ _)⟩
    · obtain ⟨c', added, hq, h', hadded⟩ := ihq h
      exact ⟨c', added, .right hq, h',
        fun e he => (hadded e he).mono (List.subset_append_right _ _)⟩
  | many p ih =>
    simp only [matchThen] at h
    -- The bound says only how often the repetition may go on: any bound takes what the pattern can.
    generalize c.rest.length = bound at h
    induction bound generalizing c g with
    | zero => exact ⟨c, [], .done p c, h, nofun⟩
    | succ bound ihb =>
      simp only [repeatThen] at h
      split at h
      · rename_i b hb
        obtain ⟨c', added, hp, h', hadded⟩ := ih (hb.trans h)
        split at h'
        · rename_i hlt
          obtain ⟨c'', added', hm, h'', hadded'⟩ := ihb h'
          refine ⟨c'', added' ++ added, .again hp hlt hm, by rwa [List.append_assoc], fun e he => ?_⟩
          rcases List.mem_append.1 he with he | he
          · exact hadded' e he
          · exact hadded e he
        · cases h'
      · exact ⟨c, [], .done p c, h, nofun⟩
  | part name p ih =>
    obtain ⟨c', added, hp, h', hadded⟩ := ih h
    refine ⟨c', _ :: added, .part hp, h', fun e he => ?_⟩
    rcases List.mem_cons.1 he with rfl | he
    · exact ⟨p, c, c', List.mem_cons_self, hp, rfl⟩
    · exact (hadded e he).mono (List.subset_cons_self _ _)
  | wordEdge =>
    simp only [matchThen] at h
    split at h
    · rename_i hw
      exact ⟨c, [], .wordEdge hw, h, nofun⟩
    · cases h
  | notAfter cls =>
    simp only [matchThen] at h
    split at h
    · cases h
    · rename_i hn
      exact ⟨c, [], .notAfter (by simpa using hn), h, nofun⟩
  | before cls =>
    simp only [matchThen] at h
    split at h
    · rename_i hb
      exact ⟨c, [], .before hb, h, nofun⟩
    · cases h
  | atEnd =>
    simp only [matchThen] at h
    split at h
    · rename_i he
      exact ⟨c, [], .atEnd he, h, nofun⟩
    · cases h

/-- A pattern without named parts adds nothing to what is kept. -/
theorem takes_of_matchThen_of_parts {k : Cursor → Parts → Option α} {g : Parts} {a : α}
    (hp : p.parts = []) (h : p.matchThen k c g = some a) : ∃ c', Takes p c c' ∧ k c' g = some a := by
  obtain ⟨c', added, ht, h', hadded⟩ := took_of_matchThen h
  cases added with
  | nil => exact ⟨c', ht, h'⟩
  | cons e added =>
    obtain ⟨q, _, _, hq, -⟩ := hadded e List.mem_cons_self
    rw [hp] at hq
    cases hq

/-- The way that a match takes is one that the pattern can take. -/
theorem takes_of_matchThen {k : Cursor → Parts → Option α} {g : Parts} {a : α}
    (h : p.matchThen k c g = some a) : ∃ c' g', Takes p c c' ∧ k c' g' = some a := by
  obtain ⟨c', added, hp, h', -⟩ := took_of_matchThen h
  exact ⟨c', added ++ g, hp, h'⟩

/-- What is taken is the text between the two places. -/
theorem Takes.rest_eq (h : Takes p c c') :
    ∃ taken, c.rest = taken ++ c'.rest ∧ c'.offset = c.offset + taken.length := by
  induction h with
  | @one k c c' hs =>
    unfold Cursor.step? at hs
    split at hs
    · cases hs
    · rename_i a r hr
      split at hs
      · cases hs
        exact ⟨[a], hr, rfl⟩
      · cases hs
  | @seq p q c c' c'' _ _ ihp ihq =>
    obtain ⟨s, hs, hso⟩ := ihp
    obtain ⟨t, ht, hto⟩ := ihq
    refine ⟨s ++ t, by rw [hs, ht, List.append_assoc], ?_⟩
    rw [hto, hso, List.length_append, Nat.add_assoc]
  | @again p c c' c'' _ _ _ ihp ihq =>
    obtain ⟨s, hs, hso⟩ := ihp
    obtain ⟨t, ht, hto⟩ := ihq
    refine ⟨s ++ t, by rw [hs, ht, List.append_assoc], ?_⟩
    rw [hto, hso, List.length_append, Nat.add_assoc]
  | left _ ih | right _ ih | part _ ih => exact ih
  | nothing | done | wordEdge | notAfter | before | atEnd => exact ⟨[], rfl, rfl⟩

/-- A pattern leads some way on through the text. -/
theorem Takes.eq_advance {p : Pattern} {c c' : Cursor} (h : Takes p c c') :
    c' = c.advance (c'.offset - c.offset) := by
  have exists_advance : ∃ n, c' = c.advance n ∧ c'.offset = c.offset + n := by
    induction h with
    | @one k c c' hs =>
      refine ⟨1, ?_⟩
      unfold Cursor.step? at hs
      split at hs
      · cases hs
      · rename_i a r hr
        split at hs
        · cases hs
          simp [Cursor.advance, hr]
        · cases hs
    | seq _ _ ihp ihq | again _ _ _ ihp ihq =>
      obtain ⟨m, rfl, hm⟩ := ihp
      obtain ⟨n, rfl, hn⟩ := ihq
      exact ⟨m + n, (Cursor.advance_add m n _).symm, by omega⟩
    | left _ ih | right _ ih | part _ ih => exact ih
    | nothing | done | wordEdge | notAfter | before | atEnd => exact ⟨0, rfl, rfl⟩
  obtain ⟨n, hn, ho⟩ := exists_advance
  rw [ho, Nat.add_sub_cancel_left]
  exact hn

/-- The text that a match at a place has. -/
theorem takes_of_matchAt? {m : Match} (h : p.matchAt? c = some m) :
    ∃ c', Takes p c c' ∧ m.start = c.offset ∧ m.stop = c'.offset ∧ c.rest = m.text ++ c'.rest ∧
      m.stop = m.start + m.text.length := by
  obtain ⟨c', g, hp, hm⟩ := takes_of_matchThen h
  cases hm
  obtain ⟨taken, hr, ho⟩ := hp.rest_eq
  refine ⟨c', hp, rfl, rfl, ?_, ?_⟩
  all_goals simp [hr, ho]

/-- The pattern has a class that holds of a character. -/
def allows (a : Char) : Pattern → Bool
  | one k => k.holds a
  | seq p q => p.allows a || q.allows a
  | alt p q => p.allows a || q.allows a
  | many p => p.allows a
  | part _ p => p.allows a
  | nothing | wordEdge | notAfter _ | before _ | atEnd => false

theorem Takes.allows_of_mem (h : Takes p c c') :
    ∃ taken, c.rest = taken ++ c'.rest ∧ ∀ a ∈ taken, p.allows a = true := by
  induction h with
  | @one k c c' hs =>
    unfold Cursor.step? at hs
    split at hs
    · cases hs
    · rename_i a r hr
      split at hs
      · rename_i ha
        cases hs
        exact ⟨[a], hr, by simpa [allows] using ha⟩
      · cases hs
  | @seq p q c c' c'' _ _ ihp ihq =>
    obtain ⟨s, hs, hsa⟩ := ihp
    obtain ⟨t, ht, hta⟩ := ihq
    refine ⟨s ++ t, by rw [hs, ht, List.append_assoc], fun a ha => ?_⟩
    rcases List.mem_append.1 ha with ha | ha
    · simp [allows, hsa a ha]
    · simp [allows, hta a ha]
  | @again p c c' c'' _ _ _ ihp ihq =>
    obtain ⟨s, hs, hsa⟩ := ihp
    obtain ⟨t, ht, hta⟩ := ihq
    refine ⟨s ++ t, by rw [hs, ht, List.append_assoc], fun a ha => ?_⟩
    rcases List.mem_append.1 ha with ha | ha
    · exact hsa a ha
    · exact hta a ha
  | left _ ih | right _ ih =>
    obtain ⟨s, hs, hsa⟩ := ih
    exact ⟨s, hs, fun a ha => by simp [allows, hsa a ha]⟩
  | part _ ih =>
    obtain ⟨s, hs, hsa⟩ := ih
    exact ⟨s, hs, hsa⟩
  | nothing | done | wordEdge | notAfter | before | atEnd => exact ⟨[], rfl, by simp⟩

/-- Every character of a match is in a class of its pattern. -/
theorem allows_of_mem_matchAt? {m : Match} (h : p.matchAt? c = some m) :
    ∀ a ∈ m.text, p.allows a = true := by
  obtain ⟨c', ht, _, _, hr, _⟩ := takes_of_matchAt? h
  obtain ⟨taken, hr', ha⟩ := ht.allows_of_mem
  rwa [List.append_cancel_right (hr.symm.trans hr')]

/-- Every character of what a match keeps under a name is in a class of a part of that name. -/
theorem exists_allows_of_part? {m : Match} {name : String} {t : Text} (h : p.matchAt? c = some m)
    (ht : m.part? name = some t) : ∃ q, (name, q) ∈ p.parts ∧ ∀ a ∈ t, q.allows a = true := by
  obtain ⟨c', added, -, hm, hadded⟩ := took_of_matchThen h
  rw [List.append_nil] at hm
  cases hm
  have hmem : (name, t) ∈ added := by
    obtain ⟨g₁, g₂, hsplit, -⟩ := List.lookup_eq_some_iff.1 ht
    change added = g₁ ++ (name, t) :: g₂ at hsplit
    rw [hsplit]
    exact List.mem_append_right _ List.mem_cons_self
  obtain ⟨q, d, d', hq, htakes, hkept⟩ := hadded _ hmem
  obtain ⟨taken, hrest, hall⟩ := htakes.allows_of_mem
  obtain ⟨taken', hrest', hoffset⟩ := htakes.rest_eq
  obtain rfl := List.append_cancel_right (hrest.symm.trans hrest')
  rw [hrest, hoffset, Nat.add_sub_cancel_left, List.take_left'] at hkept
  · refine ⟨q, hq, fun a ha => hall a ?_⟩
    rwa [← hkept]
  · rfl

/-- Every character of a text that the pattern takes as a whole is in a class of it. -/
theorem allows_of_mem_matchAll? {t : Text} {m : Match} (h : p.matchAll? t = some m) :
    ∀ a ∈ t, p.allows a = true := by
  obtain ⟨c', ht, _⟩ := takes_of_matchAt? h
  cases ht with
  | seq hp hend =>
    cases hend with
    | atEnd hend =>
      obtain ⟨taken, hr, ha⟩ := hp.allows_of_mem
      rw [List.isEmpty_iff.1 hend, List.append_nil] at hr
      subst hr
      exact ha

end Pattern
end BackendMigration
