import BackendMigration.Document.Encoding

/-! Entries under text keys. -/
namespace BackendMigration.Document

/-- Only a text agrees with a text. -/
theorem Value.agrees_text_iff {key : Value} {name : String} :
    key.agrees (.text name) = true ↔ key = .text name := by
  cases key <;> simp [agrees, number?]

namespace Entries

variable {entries : Entries} {name k : String} {value : Value}

theorem get?_set :
    (entries.set name value).get? k = if k = name then some value else entries.get? k := by
  induction entries with
  | nil =>
    by_cases h : k = name
    · simp [set, put, get?, Value.text?, h]
    · have : ¬name = k := fun e => h e.symm
      simp [set, put, get?, Value.text?, h, this]
  | cons e r ih =>
    obtain ⟨key, v⟩ := e
    simp only [set, put] at ih ⊢
    by_cases he : key.agrees (.text name) = true
    · obtain rfl := Value.agrees_text_iff.1 he
      rw [if_pos he]
      by_cases h : k = name
      · simp [get?, Value.text?, h]
      · have : ¬name = k := fun e => h e.symm
        simp [get?, Value.text?, h, this]
    · rw [if_neg he]
      by_cases hk : key.text? = some k
      · have hne : ¬k = name := by
          rintro rfl
          cases key <;> simp_all [Value.text?]
        simp [get?, hk, hne]
      · have hb : (key.text? == some k) = false := by simpa using hk
        simp only [get?] at ih
        simp only [get?, List.find?_cons, hb, ih]

theorem set_of_not_mem (h : ∀ e ∈ entries, e.1 ≠ .text name) (value : Value) :
    entries.set name value = entries ++ [(.text name, value)] := by
  induction entries with
  | nil => rfl
  | cons e r ih =>
    obtain ⟨key, v⟩ := e
    have hkey : ¬key.agrees (.text name) = true := fun ha =>
      h _ List.mem_cons_self (Value.agrees_text_iff.1 ha)
    have ih := ih fun e he => h e (List.mem_cons_of_mem _ he)
    unfold set at ih ⊢
    rw [put, if_neg hkey, ih, List.cons_append]

/-- The keys are those before and at most one that is new. -/
theorem key_of_mem_set {e : Value × Value} (h : e ∈ entries.set name value) :
    (∃ f ∈ entries, f.1 = e.1) ∨ e.1 = .text name := by
  induction entries with
  | nil =>
    obtain rfl := List.mem_singleton.1 h
    exact .inr rfl
  | cons f r ih =>
    obtain ⟨key, v⟩ := f
    unfold set at h ih
    rw [put] at h
    split at h
    · rcases List.mem_cons.1 h with rfl | h
      · exact .inl ⟨_, List.mem_cons_self, rfl⟩
      · exact .inl ⟨e, List.mem_cons_of_mem _ h, rfl⟩
    · rcases List.mem_cons.1 h with rfl | h
      · exact .inl ⟨_, List.mem_cons_self, rfl⟩
      · exact (ih h).imp_left fun ⟨f, hf, he⟩ => ⟨f, List.mem_cons_of_mem _ hf, he⟩

end Entries

theorem Value.entriesToJson_cons {key value : Value} {entries : Entries} {name : String} {j : Json}
    {fields : List (String × Json)} (hkey : key.fieldName = .ok name) (hvalue : value.toJson = .ok j)
    (h : entriesToJson entries = .ok fields) :
    entriesToJson ((key, value) :: entries) = .ok ((name, j) :: fields) := by
  rw [entriesToJson, hkey, hvalue, h]
  rfl

/-- The entries of fields, one by one. -/
theorem Value.exists_of_entriesToJson_cons {key value : Value} {entries : Entries}
    {fields : List (String × Json)} (h : entriesToJson ((key, value) :: entries) = .ok fields) :
    ∃ name j rest, key.fieldName = .ok name ∧ value.toJson = .ok j ∧
      entriesToJson entries = .ok rest ∧ fields = (name, j) :: rest := by
  simp only [entriesToJson] at h
  cases hk : key.fieldName with
  | error e => simp [hk, bind, Except.bind] at h
  | ok name =>
    cases hv : value.toJson with
    | error e => simp [hk, hv, bind, Except.bind] at h
    | ok j =>
      cases hr : entriesToJson entries with
      | error e => simp [hk, hv, hr, bind, Except.bind] at h
      | ok rest =>
        simp only [hk, hv, hr, bind, Except.bind, pure, Except.pure] at h
        exact ⟨name, j, rest, rfl, rfl, rfl, (Except.ok.inj h).symm⟩

theorem Value.entriesToJson_concat {entries : Entries} {fields : List (String × Json)} {value : Value}
    {j : Json} (h : entriesToJson entries = .ok fields) (hvalue : value.toJson = .ok j)
    (name : String) :
    entriesToJson (entries ++ [(.text name, value)]) = .ok (fields ++ [(name, j)]) := by
  induction entries generalizing fields with
  | nil =>
    cases h
    exact entriesToJson_cons rfl hvalue rfl
  | cons e r ih =>
    obtain ⟨label, i, rest, hk, hv, hr, rfl⟩ := exists_of_entriesToJson_cons h
    exact entriesToJson_cons hk hv (ih hr)

/-- A field has the name of an entry. -/
theorem Value.exists_fieldName_of_mem_keys {entries : Entries} {fields : List (String × Json)}
    (h : entriesToJson entries = .ok fields) {name : String} (hname : name ∈ Keyed.keys fields) :
    ∃ e ∈ entries, e.1.fieldName = .ok name := by
  induction entries generalizing fields with
  | nil =>
    cases h
    exact absurd hname List.not_mem_nil
  | cons e r ih =>
    obtain ⟨label, i, rest, hk, hv, hr, rfl⟩ := exists_of_entriesToJson_cons h
    rcases List.mem_cons.1 hname with rfl | hname
    · exact ⟨e, List.mem_cons_self, hk⟩
    · obtain ⟨f, hf, he⟩ := ih hr hname
      exact ⟨f, List.mem_cons_of_mem e hf, he⟩

/-- A text put among entries is the only field that is new. -/
theorem Value.entriesToJson_put {entries : Entries} {fields : List (String × Json)}
    (h : Value.entriesToJson entries = .ok fields) (name s : String) :
    ∃ fields', Value.entriesToJson (entries.put (.text name) (.text s)) = .ok fields' ∧
      ∀ f ∈ fields', f ∈ fields ∨ f = (name, .str s) := by
  induction entries generalizing fields with
  | nil => exact ⟨[(name, .str s)], rfl, by simp⟩
  | cons e r ih =>
    obtain ⟨key, v⟩ := e
    obtain ⟨label, j, rest, hk, hv, hr, rfl⟩ := exists_of_entriesToJson_cons h
    simp only [Entries.put]
    by_cases ha : key.agrees (.text name) = true
    · obtain rfl := Value.agrees_text_iff.1 ha
      rw [if_pos ha]
      exact ⟨(name, .str s) :: rest, entriesToJson_cons rfl rfl hr, by simp +contextual⟩
    · rw [if_neg ha]
      obtain ⟨fields', hf, hmem⟩ := ih hr
      refine ⟨(label, j) :: fields', entriesToJson_cons hk hv hf, fun f hm => ?_⟩
      rcases List.mem_cons.1 hm with rfl | hm
      · exact .inl List.mem_cons_self
      · exact (hmem f hm).imp_left (List.mem_cons_of_mem _)

end BackendMigration.Document
