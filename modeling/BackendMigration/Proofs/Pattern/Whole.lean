import BackendMigration.Proofs.Pattern.Occurs
import BackendMigration.Proofs.Pattern.Spells
import Mathlib.Data.List.Forall2

/-! Matches of a whole text: a pattern without conditions has one exactly if it can take the text. -/
namespace BackendMigration

open Text

namespace Pattern

variable {α : Type} {p : Pattern} {s t : Text}

/-- No condition of the pattern looks at neighbouring characters. -/
def unconditional : Pattern → Bool
  | nothing | one _ => true
  | seq p q | alt p q => p.unconditional && q.unconditional
  | many p | part _ p => p.unconditional
  | wordEdge | notAfter _ | before _ | atEnd => false

theorem takes_of_spells (hp : p.unconditional = true) (h : p.Spells s) (front back : Text) :
    Takes p (.between front (s ++ back)) (.between (front ++ s) back) := by
  induction p generalizing s front back with
  | nothing =>
    obtain rfl : s = [] := h
    rw [List.append_nil]
    exact .nothing _
  | one k =>
    obtain ⟨a, ha, rfl⟩ := h
    exact takes_one ha front back
  | seq p q ihp ihq =>
    obtain ⟨hp, hq⟩ := Bool.and_eq_true_iff.1 hp
    obtain ⟨u, v, hu, hv, rfl⟩ := h
    have hfirst := ihp hp hu front (v ++ back)
    have hsecond := ihq hq hv (front ++ u) back
    rw [List.append_assoc] at hsecond ⊢
    exact .seq hfirst hsecond
  | alt p q ihp ihq =>
    obtain ⟨hp, hq⟩ := Bool.and_eq_true_iff.1 hp
    rcases h with h | h
    · exact .left (ihp hp h front back)
    · exact .right (ihq hq h front back)
  | many p ih =>
    obtain ⟨ts, hts, rfl⟩ := h
    induction ts generalizing front with
    | nil =>
      rw [List.flatten_nil, List.append_nil]
      exact .done _ _
    | cons u ts ihts =>
      have hrest := ihts (front ++ u) fun v hv => hts v (List.mem_cons_of_mem u hv)
      rw [List.flatten_cons, List.append_assoc, ← List.append_assoc front]
      -- A repetition that takes nothing is none.
      by_cases hu : u = []
      · subst hu
        rwa [List.append_nil] at hrest ⊢
      · refine .again (ih hp (hts u List.mem_cons_self) front _) ?_ hrest
        have := List.length_pos_iff.2 hu
        simp only [Cursor.between, List.length_append]
        omega
  | part name p ih => exact .part (ih hp h front back)
  | wordEdge | notAfter | before | atEnd => cases hp

theorem isSome_matchAll?_iff (hp : p.unconditional = true) :
    (p.matchAll? t).isSome = true ↔ p.Spells t := by
  rw [matchAll?, isSome_matchAt?_iff]
  constructor
  · rintro ⟨c', ht⟩
    obtain ⟨d, hd, hend⟩ := takes_seq_iff.1 ht
    cases hend with
    | atEnd hempty =>
      have hd : Takes p (.between [] t) _ := hd
      obtain ⟨s, r, hs, rfl, rfl⟩ := hd.exists_between
      obtain rfl : r = [] := List.isEmpty_iff.1 hempty
      rwa [List.append_nil]
  · intro h
    have ht := takes_of_spells hp h [] []
    rw [List.append_nil] at ht
    exact ⟨_, .seq ht (.atEnd rfl)⟩

/-! What a match takes, part by part. -/

theorem exists_of_matchThen {k : Cursor → Parts → Option α} {g : Parts} {a : α} {front : Text}
    (hp : p.parts = []) (h : p.matchThen k (.between front t) g = some a) :
    ∃ s r, p.Spells s ∧ t = s ++ r ∧ k (.between (front ++ s) r) g = some a := by
  obtain ⟨c', ht, hk⟩ := takes_of_matchThen_of_parts hp h
  obtain ⟨s, r, hs, rfl, rfl⟩ := ht.exists_between
  exact ⟨s, r, hs, rfl, hk⟩

theorem exists_of_matchThen_part {k : Cursor → Parts → Option α} {g : Parts} {a : α} {front : Text}
    {name : String} (hp : p.parts = [])
    (h : (part name p).matchThen k (.between front t) g = some a) :
    ∃ s r, p.Spells s ∧ t = s ++ r ∧ k (.between (front ++ s) r) ((name, s) :: g) = some a := by
  rw [matchThen] at h
  obtain ⟨s, r, hs, rfl, hk⟩ := exists_of_matchThen hp h
  refine ⟨s, r, hs, rfl, ?_⟩
  simpa [Cursor.between] using hk

theorem exists_of_matchThen_cons {ps : List Pattern} {k : Cursor → Parts → Option α} {g : Parts}
    {a : α} {front : Text} (hp : p.parts = [])
    (h : (concat (p :: ps)).matchThen k (.between front t) g = some a) :
    ∃ s r, p.Spells s ∧ t = s ++ r ∧
      (concat ps).matchThen k (.between (front ++ s) r) g = some a :=
  exists_of_matchThen hp h

theorem exists_of_matchThen_part_cons {ps : List Pattern} {k : Cursor → Parts → Option α} {g : Parts}
    {a : α} {front : Text} {name : String} (hp : p.parts = [])
    (h : (concat (part name p :: ps)).matchThen k (.between front t) g = some a) :
    ∃ s r, p.Spells s ∧ t = s ++ r ∧
      (concat ps).matchThen k (.between (front ++ s) r) ((name, s) :: g) = some a :=
  exists_of_matchThen_part hp h

/-- At the end of a text nothing is left, and what was kept is in the match. -/
theorem parts_of_matchThen_atEnd {c : Cursor} {g : Parts} {front : Text} {m : Match}
    (h : (concat []).matchThen (atEnd.matchThen fun c' g =>
      some (⟨c.offset, c'.offset, c.rest.take (c'.offset - c.offset), g⟩ : Match))
      (.between front t) g = some m) : t = [] ∧ m.parts = g := by
  change (if t.isEmpty = true then some _ else none) = some m at h
  split at h
  · rename_i hempty
    cases h
    exact ⟨List.isEmpty_iff.1 hempty, rfl⟩
  · cases h

/-! Repeated characters. -/

theorem spells_many_one {k : CharClass} : (many (one k)).Spells t ↔ ∀ a ∈ t, k.holds a = true := by
  constructor
  · rintro ⟨ts, hts, rfl⟩ a ha
    obtain ⟨u, hu, hau⟩ := List.mem_flatten.1 ha
    obtain ⟨b, hb, rfl⟩ := hts u hu
    rwa [List.mem_singleton.1 hau]
  · intro h
    refine ⟨t.map fun a => [a], fun u hu => ?_, (List.flatMap_singleton' t).symm⟩
    obtain ⟨a, ha, rfl⟩ := List.mem_map.1 hu
    exact ⟨a, h a ha, rfl⟩

theorem spells_repeated_one {k : CharClass} :
    (repeated (one k)).Spells t ↔ t ≠ [] ∧ ∀ a ∈ t, k.holds a = true := by
  constructor
  · rintro ⟨u, v, ⟨a, ha, rfl⟩, hv, rfl⟩
    refine ⟨List.cons_ne_nil a v, fun b hb => ?_⟩
    rcases List.mem_cons.1 hb with rfl | hb
    · exact ha
    · exact spells_many_one.1 hv b hb
  · rintro ⟨hne, h⟩
    obtain ⟨a, r, rfl⟩ := List.exists_cons_of_ne_nil hne
    obtain ⟨ha, hr⟩ := List.forall_mem_cons.1 h
    exact ⟨[a], r, ⟨a, ha, rfl⟩, spells_many_one.2 hr, rfl⟩

/-! Words in capitals or small letters. -/

theorem parts_textAnyCase (w : String) : (textAnyCase w).parts = [] := by
  unfold textAnyCase
  induction w.toList with
  | nil => rfl
  | cons c r ih => exact ih

theorem unconditional_textAnyCase (w : String) : (textAnyCase w).unconditional = true := by
  unfold textAnyCase
  induction w.toList with
  | nil => rfl
  | cons c r ih => exact ih

theorem spells_textAnyCase {w : String} : (textAnyCase w).Spells t ↔
    List.Forall₂ (fun c a => (CharClass.anyCase c).holds a = true) w.toList t := by
  unfold textAnyCase
  induction w.toList generalizing t with
  | nil => simp [spells_concat_nil]
  | cons c r ih =>
    rw [List.map_cons, spells_concat_cons, List.forall₂_cons_left_iff]
    constructor
    · rintro ⟨u, v, ⟨a, ha, rfl⟩, hv, rfl⟩
      exact ⟨a, v, ha, ih.1 hv, rfl⟩
    · rintro ⟨a, v, ha, hv, rfl⟩
      exact ⟨[a], v, ⟨a, ha, rfl⟩, ih.2 hv, rfl⟩

end Pattern
end BackendMigration
