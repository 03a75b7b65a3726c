import BackendMigration.Keyed
import Mathlib.Data.List.Induction

/-! Pairs put one after another. -/
namespace BackendMigration

namespace Keyed

variable {α : Type}

/-- Where no key has two values, each pair is found under its key. -/
theorem get?_of_mem {es : Keyed α} {e : String × α} (h : (keys es).Nodup) (he : e ∈ es) :
    get? e.1 es = some e.2 := by
  induction es with
  | nil => cases he
  | cons f rest ih =>
    obtain ⟨hf, hrest⟩ : f.1 ∉ keys rest ∧ (keys rest).Nodup := List.nodup_cons.1 h
    rcases List.mem_cons.1 he with rfl | he
    · simp [get?]
    · have hmem : e.1 ∈ keys rest := List.mem_map_of_mem he
      have hne : f.1 ≠ e.1 := fun heq => hf (heq ▸ hmem)
      have hskip : get? e.1 (f :: rest) = get? e.1 rest := by
        rw [get?, List.find?_cons_of_neg (by simpa using hne)]
        rfl
      rw [hskip, ih hrest he]

theorem set_of_not_mem {key : String} {es : Keyed α} (h : key ∉ keys es) (value : α) :
    set key value es = es ++ [(key, value)] := by
  induction es with
  | nil => rfl
  | cons e rest ih =>
    rw [keys_cons, List.mem_cons, not_or] at h
    rw [set, if_neg fun he => h.1 he.symm, ih h.2, List.cons_append]

theorem ofPairs_concat (pairs : List (String × α)) (p : String × α) :
    ofPairs (pairs ++ [p]) = set p.1 p.2 (ofPairs pairs) := by
  simp [ofPairs]

theorem mem_keys_ofPairs {pairs : List (String × α)} {key : String} :
    key ∈ keys (ofPairs pairs) ↔ key ∈ keys pairs := by
  induction pairs using List.reverseRecOn with
  | nil => rfl
  | append_singleton pairs p ih =>
    have hkeys : keys (pairs ++ [p]) = keys pairs ++ [p.1] := List.map_append
    rw [ofPairs_concat, keys_set, hkeys, List.mem_append, List.mem_singleton, ← ih]
    split
    · rename_i hp
      rw [has_iff] at hp
      exact ⟨.inl, fun h => h.elim id fun he => he ▸ hp⟩
    · rw [List.mem_append, List.mem_singleton]

/-- Pairs with different keys stay as they are. -/
theorem ofPairs_of_nodup {pairs : List (String × α)} (h : (keys pairs).Nodup) :
    ofPairs pairs = pairs := by
  induction pairs using List.reverseRecOn with
  | nil => rfl
  | append_singleton pairs p ih =>
    have hkeys : keys (pairs ++ [p]) = keys pairs ++ [p.1] := List.map_append
    rw [hkeys, List.nodup_append] at h
    have hp : p.1 ∉ keys pairs := fun hp => h.2.2 _ hp _ (List.mem_singleton_self p.1) rfl
    rw [ofPairs_concat, ih h.1, set_of_not_mem hp]

end Keyed

end BackendMigration
