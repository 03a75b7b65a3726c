import BackendMigration.Proofs.Pattern.Matches
import BackendMigration.Proofs.Pattern.Occurs

/-! What stands around a match: of the text after it a pattern reads one character at most, and so of
the text before it. -/
namespace BackendMigration

namespace Pattern

variable {p : Pattern} {c c' : Cursor}

theorem head?_append_congr (s : Text) {t t' : Text} (h : t'.head? = t.head?) :
    (s ++ t').head? = (s ++ t).head? := by
  rw [List.head?_append, List.head?_append, h]

theorem takes_of_step? {k : CharClass} (hs : c.step? k = some c') (back : Text) :
    ∃ taken, c.rest = taken ++ c'.rest ∧
      Takes (one k) { c with rest := taken ++ back } { c' with rest := back } := by
  unfold Cursor.step? at hs
  split at hs
  · cases hs
  · rename_i a r hr
    split at hs
    · rename_i ha
      cases hs
      exact ⟨[a], hr, .one (if_pos ha)⟩
    · cases hs

/-- A match stands also where another text follows it that begins with the same character. -/
theorem Takes.of_head?_eq (h : Takes p c c') {back : Text} (hback : back.head? = c'.rest.head?) :
    ∃ taken, c.rest = taken ++ c'.rest ∧
      Takes p { c with rest := taken ++ back } { c' with rest := back } := by
  induction h generalizing back with
  | nothing c => exact ⟨[], rfl, .nothing _⟩
  | one hs => exact takes_of_step? hs back
  | seq _ _ ihp ihq =>
    obtain ⟨t, ht, hq⟩ := ihq hback
    obtain ⟨s, hs, hp⟩ := ihp (ht ▸ head?_append_congr t hback)
    refine ⟨s ++ t, by rw [hs, ht, List.append_assoc], ?_⟩
    rw [List.append_assoc]
    exact .seq hp hq
  | left _ ih =>
    obtain ⟨t, ht, hp⟩ := ih hback
    exact ⟨t, ht, .left hp⟩
  | right _ ih =>
    obtain ⟨t, ht, hp⟩ := ih hback
    exact ⟨t, ht, .right hp⟩
  | done => exact ⟨[], rfl, .done _ _⟩
  | again _ hlt _ ihp ihq =>
    obtain ⟨t, ht, hq⟩ := ihq hback
    obtain ⟨s, hs, hp⟩ := ihp (ht ▸ head?_append_congr t hback)
    refine ⟨s ++ t, by rw [hs, ht, List.append_assoc], ?_⟩
    rw [List.append_assoc]
    exact .again hp hlt hq
  | part _ ih =>
    obtain ⟨t, ht, hp⟩ := ih hback
    exact ⟨t, ht, .part hp⟩
  | wordEdge he =>
    refine ⟨[], rfl, .wordEdge ?_⟩
    rw [Cursor.isWordEdge] at he ⊢
    rwa [List.nil_append, hback]
  | notAfter hn => exact ⟨[], rfl, .notAfter hn⟩
  | before hb =>
    refine ⟨[], rfl, .before ?_⟩
    rwa [List.nil_append, hback]
  | atEnd he =>
    refine ⟨[], rfl, .atEnd ?_⟩
    rw [List.isEmpty_iff] at he
    rw [he, List.head?_nil, List.head?_eq_none_iff] at hback
    rw [hback]
    rfl

/-- What follows a match makes no difference. -/
def free : Pattern → Bool
  | one _ | nothing | notAfter _ => true
  | seq p q => q.free && (p.free || decide (0 < q.minLength))
  | alt p q => p.free && q.free
  | many p | part _ p => p.free
  | wordEdge | before _ | atEnd => false

/-- A match of such a pattern stands also where any other text follows it. -/
theorem Takes.of_free (h : Takes p c c') (hp : p.free = true) (back : Text) :
    ∃ taken, c.rest = taken ++ c'.rest ∧
      Takes p { c with rest := taken ++ back } { c' with rest := back } := by
  induction h generalizing back with
  | nothing c => exact ⟨[], rfl, .nothing _⟩
  | one hs => exact takes_of_step? hs back
  | @seq p q c c₁ c' hfirst hsecond ihp ihq =>
    rw [free, Bool.and_eq_true, Bool.or_eq_true, decide_eq_true_eq] at hp
    obtain ⟨t, ht, hq⟩ := ihq hp.1 back
    obtain ⟨s, hs, hfirst'⟩ : ∃ s, c.rest = s ++ c₁.rest ∧
        Takes p { c with rest := s ++ (t ++ back) } { c₁ with rest := t ++ back } := by
      rcases hp.2 with hfree | hlength
      · exact ihp hfree _
      · -- The second part takes a character, which the first one may look at.
        have hpos := hsecond.minLength_le
        obtain ⟨taken, htaken, hoffset⟩ := hsecond.rest_eq
        obtain rfl : t = taken := List.append_cancel_right (ht.symm.trans htaken)
        refine hfirst.of_head?_eq ?_
        rw [ht]
        cases t with
        | nil =>
          rw [List.length_nil] at hoffset
          omega
        | cons => rfl
    refine ⟨s ++ t, by rw [hs, ht, List.append_assoc], ?_⟩
    rw [List.append_assoc]
    exact .seq hfirst' hq
  | left _ ih =>
    obtain ⟨t, ht, hp'⟩ := ih (Bool.and_eq_true_iff.1 hp).1 back
    exact ⟨t, ht, .left hp'⟩
  | right _ ih =>
    obtain ⟨t, ht, hp'⟩ := ih (Bool.and_eq_true_iff.1 hp).2 back
    exact ⟨t, ht, .right hp'⟩
  | done => exact ⟨[], rfl, .done _ _⟩
  | again _ hlt _ ihp ihq =>
    obtain ⟨t, ht, hq⟩ := ihq hp back
    obtain ⟨s, hs, hp'⟩ := ihp hp (t ++ back)
    refine ⟨s ++ t, by rw [hs, ht, List.append_assoc], ?_⟩
    rw [List.append_assoc]
    exact .again hp' hlt hq
  | part _ ih =>
    obtain ⟨t, ht, hp'⟩ := ih hp back
    exact ⟨t, ht, .part hp'⟩
  | wordEdge | before | atEnd => cases hp
  | notAfter hn => exact ⟨[], rfl, .notAfter hn⟩

/-- The pattern takes no notice of the character before a place. -/
def Overlooks (p : Pattern) (front : Text) : Prop := ∀ a ∈ front.getLast?, p.overlooks a = true

theorem overlooks_nil (p : Pattern) : Overlooks p [] := nofun

theorem Overlooks.append {front u : Text} (hf : Overlooks p front) (hu : Overlooks p u) :
    Overlooks p (front ++ u) := by
  intro a ha
  rw [List.getLast?_append] at ha
  cases hlast : u.getLast? with
  | none => exact hf a (by simpa [hlast] using ha)
  | some b => exact hu a (by simpa [hlast] using ha)

theorem Overlooks.of_append {front u : Text} (h : Overlooks p (front ++ u)) : Overlooks p u := by
  intro a ha
  exact h a (by rw [List.getLast?_append, Option.mem_def.1 ha]; rfl)

/-- A match that takes no notice of what stands before it stands also at the start of a text. -/
theorem Takes.start {front t : Text} (h : Takes p (.between front t) c')
    (hf : Overlooks p front) : ∃ d, Takes p (.between [] t) d ∧ d.rest = c'.rest := by
  cases hlast : front.getLast? with
  | none =>
    obtain rfl := List.getLast?_eq_none_iff.1 hlast
    exact ⟨c', h, rfl⟩
  | some a =>
    have halike := (Cursor.alike_append hlast [] t).symm
    rw [List.append_nil] at halike
    obtain ⟨d, hd, hrest⟩ := h.exists_alike (hf a hlast) halike
    exact ⟨d, hd, hrest.rest_eq.symm⟩

/-- A match at the start of a text stands also where something is before it that the pattern takes no
notice of. -/
theorem Takes.behind {front t : Text} (h : Takes p (.between [] t) c') (hf : Overlooks p front) :
    ∃ d, Takes p (.between front t) d ∧ d.rest = c'.rest := by
  cases hlast : front.getLast? with
  | none =>
    obtain rfl := List.getLast?_eq_none_iff.1 hlast
    exact ⟨c', h, rfl⟩
  | some a =>
    have halike := Cursor.alike_append hlast [] t
    rw [List.append_nil] at halike
    obtain ⟨d, hd, hrest⟩ := h.exists_alike (hf a hlast) halike
    exact ⟨d, hd, hrest.rest_eq.symm⟩

/-- A match moves to another place with its text, if the pattern takes no notice of what is around it. -/
theorem Takes.move {front front' t back : Text} (h : Takes p (.between front (t ++ back)) c')
    (hrest : c'.rest = back) (hp : p.free = true) (hf : Overlooks p front) (hf' : Overlooks p front')
    (back' : Text) : ∃ d, Takes p (.between front' (t ++ back')) d ∧ d.rest = back' := by
  obtain ⟨taken, ht, hmoved⟩ := h.of_free hp back'
  rw [hrest] at ht
  obtain rfl : t = taken := List.append_cancel_right ht
  obtain ⟨d, hd, hdrest⟩ := hmoved.start hf
  obtain ⟨e, he, herest⟩ := hd.behind hf'
  exact ⟨e, he, by rw [herest, hdrest]⟩

end Pattern
end BackendMigration
