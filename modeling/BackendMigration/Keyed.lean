/-! Values under text keys, in the order in which the keys were first put. -/
namespace BackendMigration

/-- Pairs of a key and a value; no operation here puts a key twice. -/
abbrev Keyed (α : Type) := List (String × α)

namespace Keyed

variable {α : Type}

/-- The value under a key. -/
def get? (key : String) (entries : Keyed α) : Option α :=
  (entries.find? (·.1 == key)).map (·.2)

def has (key : String) (entries : Keyed α) : Bool := entries.any (·.1 == key)

def keys (entries : Keyed α) : List String := entries.map (·.1)

/-- Put a value under a key: at the place of the key, or at the end. -/
def set (key : String) (value : α) : Keyed α → Keyed α
  | [] => [(key, value)]
  | (k, v) :: r => if k = key then (k, value) :: r else (k, v) :: set key value r

/-- Take a key away. -/
def erase (key : String) (entries : Keyed α) : Keyed α := entries.filter (·.1 != key)

/-- Put several values, one after another. -/
def ofPairs (pairs : List (String × α)) : Keyed α := pairs.foldl (fun es p => set p.1 p.2 es) []

theorem has_iff (key : String) (entries : Keyed α) :
    has key entries = true ↔ key ∈ keys entries := by
  simp [has, keys]

@[simp] theorem keys_cons (f : String × α) (r : Keyed α) : keys (f :: r) = f.1 :: keys r := rfl

@[simp] theorem has_cons (key : String) (f : String × α) (r : Keyed α) :
    has key (f :: r) = (f.1 == key || has key r) := rfl

/-- A new key goes to the end, a known one stays where it is. -/
theorem keys_set (key : String) (value : α) (es : Keyed α) :
    keys (set key value es) = if has key es then keys es else keys es ++ [key] := by
  induction es with
  | nil => simp [set, keys, has]
  | cons f r ih =>
    by_cases h : f.1 = key
    · simp [set, h]
    · have hb : (f.1 == key) = false := by simpa using h
      simp only [set, h, if_false, keys_cons, has_cons, hb, Bool.false_or, ih]
      split <;> rfl

/-- Putting a value keeps the keys distinct. -/
theorem nodup_keys_set (key : String) (value : α) {es : Keyed α} (h : (keys es).Nodup) :
    (keys (set key value es)).Nodup := by
  rw [keys_set]
  split
  · exact h
  · rename_i hk
    rw [has_iff] at hk
    exact List.nodup_append.2 ⟨h, by simp, by grind⟩

/-- Pairs put one after another have distinct keys. -/
theorem nodup_keys_ofPairs (pairs : List (String × α)) : (keys (ofPairs pairs)).Nodup := by
  have go : ∀ (ps : List (String × α)) (es : Keyed α), (keys es).Nodup →
      (keys (ps.foldl (fun es p => set p.1 p.2 es) es)).Nodup := by
    intro ps
    induction ps with
    | nil => exact fun _ h => h
    | cons p ps ih => exact fun es h => ih _ (nodup_keys_set p.1 p.2 h)
  exact go pairs [] List.nodup_nil

/-- Putting a value changes what is found under its key and nothing else. -/
theorem get?_set (key k : String) (value : α) (es : Keyed α) :
    get? k (set key value es) = if k = key then some value else get? k es := by
  induction es with
  | nil =>
    by_cases h : k = key
    · simp [set, get?, h]
    · have : ¬key = k := fun e => h e.symm
      simp [set, get?, h, this]
  | cons f r ih =>
    by_cases h : f.1 = key
    · by_cases hk : k = key
      · simp [set, get?, h, hk]
      · have : ¬key = k := fun e => hk e.symm
        simp [set, get?, h, hk, this]
    · by_cases hk : f.1 = k
      · have : ¬k = key := fun e => h (hk.trans e)
        simp [set, get?, hk, this]
      · have hb : (f.1 == k) = false := by simpa using hk
        simp only [get?] at ih
        simp [set, get?, h, hb, ih]

/-- What is among pairs after a value is put was there before, or is the pair that was put. -/
theorem mem_set {key : String} {value : α} {es : Keyed α} {e : String × α}
    (h : e ∈ set key value es) : e = (key, value) ∨ e ∈ es := by
  induction es with
  | nil => exact .inl (List.mem_singleton.1 h)
  | cons f r ih =>
    unfold set at h
    split at h
    · rename_i hf
      rcases List.mem_cons.1 h with rfl | h
      · exact .inl (by rw [hf])
      · exact .inr (List.mem_cons_of_mem f h)
    · rcases List.mem_cons.1 h with rfl | h
      · exact .inr List.mem_cons_self
      · exact (ih h).imp_right (List.mem_cons_of_mem f)

end Keyed
end BackendMigration
