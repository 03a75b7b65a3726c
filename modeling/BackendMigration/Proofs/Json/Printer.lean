import BackendMigration.Json.Printer
import BackendMigration.Proofs.Text.Utf8

/-! Printed JSON has halves of pairs only where its texts have them. -/
namespace BackendMigration.Json

open Text

variable {style : Style}

theorem renderAt_str (level : Nat) (s : String) :
    renderAt style level (.str s) = writtenString style.ascii s.toList :=
  rfl

theorem renderAt_obj_nil (level : Nat) : renderAt style level (.obj []) = ['\x7b', '\x7d'] := rfl

theorem renderAt_obj_cons (level : Nat) (k : String) (x : Json) (fs : List (String × Json)) :
    renderAt style level (.obj ((k, x) :: fs)) =
      '\x7b' :: (style.lineBreak (level + 1) ++ (writtenString style.ascii k.toList ++ [':', ' '] ++
        renderAt style (level + 1) x) ++ renderFields style (level + 1) fs ++
        style.lineBreak level ++ ['\x7d']) :=
  rfl

theorem noHalves_charEscape {c : Char} (h : c.toNat < 0x20) : NoHalves (charEscape c) := by
  have all : ∀ n < 0x20, NoHalves (unitEscape n) := by decide
  rw [charEscape, if_pos (by omega)]
  exact all _ h

theorem noHalves_writtenChar {c : Char} (h : half? c = none) : NoHalves (writtenChar false c) := by
  unfold writtenChar
  iterate 7
    split
    · decide
  split
  · rename_i hc
    exact noHalves_charEscape (by simpa using hc)
  · simpa using h

theorem noHalves_writtenString {s : Text} (h : NoHalves s) : NoHalves (writtenString false s) := by
  have hq : half? '"' = none := by decide
  simp only [writtenString, noHalves_cons, noHalves_append, hq, noHalves_nil, true_and, and_true]
  intro c hc
  obtain ⟨a, ha, hc⟩ := List.mem_flatMap.1 hc
  exact noHalves_writtenChar (h a ha) c hc

theorem noHalves_lineBreak (style : Style) (level : Nat) : NoHalves (style.lineBreak level) := by
  unfold Style.lineBreak
  split
  · refine noHalves_cons.2 ⟨by decide, fun c hc => ?_⟩
    rw [List.eq_of_mem_replicate hc]
    decide
  · exact noHalves_nil

theorem noHalves_separator (style : Style) (level : Nat) : NoHalves (style.separator level) := by
  unfold Style.separator
  split
  · exact noHalves_cons.2 ⟨by decide, noHalves_lineBreak style level⟩
  · decide

/-- The written form of a field at a level of nesting. -/
def renderField (style : Style) (level : Nat) (f : String × Json) : Text :=
  writtenString style.ascii f.1.toList ++ [':', ' '] ++ renderAt style level f.2

theorem noHalves_renderFields {level : Nat} {fields : List (String × Json)} :
    NoHalves (renderFields style level fields) ↔
      ∀ f ∈ fields, NoHalves (renderField style level f) := by
  induction fields with
  | nil => simp [renderFields]
  | cons f r ih =>
    obtain ⟨k, x⟩ := f
    rw [renderFields, noHalves_append, noHalves_append, ih, List.forall_mem_cons]
    simp only [noHalves_separator, true_and]
    rfl

/-- An object is written without halves if its fields are. -/
theorem noHalves_render_obj {fields : List (String × Json)} :
    NoHalves (render style (.obj fields)) ↔ ∀ f ∈ fields, NoHalves (renderField style 1 f) := by
  have hopen : half? '\x7b' = none := by decide
  have hclose : half? '\x7d' = none := by decide
  cases fields with
  | nil => simp [render, renderAt_obj_nil, hopen, hclose]
  | cons f r =>
    obtain ⟨k, x⟩ := f
    simp only [render, renderAt_obj_cons, noHalves_cons, noHalves_append, noHalves_lineBreak, hopen, hclose,
      noHalves_nil, true_and, and_true, noHalves_renderFields, List.forall_mem_cons, renderField]

/-! Values without halves of pairs. -/

mutual

/-- No text of the value has half of a pair. -/
def IsWhole : Json → Prop
  | str s => NoHalves s.toList
  | arr items => ItemsWhole items
  | obj fields => FieldsWhole fields
  | _ => True

def ItemsWhole : List Json → Prop
  | [] => True
  | x :: xs => IsWhole x ∧ ItemsWhole xs

def FieldsWhole : List (String × Json) → Prop
  | [] => True
  | (k, x) :: fs => NoHalves k.toList ∧ IsWhole x ∧ FieldsWhole fs

end

theorem itemsWhole_iff {items : List Json} : ItemsWhole items ↔ ∀ x ∈ items, x.IsWhole := by
  induction items with
  | nil => simp [ItemsWhole]
  | cons x xs ih => simp [ItemsWhole, ih]

/-- A half of a pair is written as it is. -/
theorem noHalves_of_writtenString {s : Text} (h : NoHalves (writtenString false s)) : NoHalves s := by
  intro c hc
  cases hhalf : half? c with
  | none => rfl
  | some unit =>
    have hlarge : 0x10D800 ≤ c.toNat := by
      unfold half? at hhalf
      split at hhalf
      · rename_i hrange
        exact hrange.1
      · cases hhalf
    have hsmall : ∀ d ∈ ['"', '\\', '\n', '\r', '\t', '\x0c', '\x08'], c ≠ d := by
      have all : ∀ d ∈ ['"', '\\', '\n', '\r', '\t', '\x0c', '\x08'], d.toNat < 0x10D800 := by simp
      rintro d hd rfl
      have := all c hd
      omega
    have hcontrol : ¬(c.toNat < 0x20 ∨ (false = true ∧ 0x7F ≤ c.toNat)) := by
      simp only [Bool.false_eq_true, false_and, or_false]
      omega
    have hwritten : writtenChar false c = [c] := by
      simp only [List.forall_mem_cons] at hsmall
      simp only [writtenChar, hsmall, hcontrol, if_false]
    have hmem : c ∈ writtenString false s := by
      refine List.mem_cons_of_mem _ (List.mem_append_left _ (List.mem_flatMap.2 ⟨c, hc, ?_⟩))
      rw [hwritten]
      exact List.mem_singleton_self c
    rw [← hhalf]
    exact h c hmem

mutual

/-- What is written without halves of pairs has none. -/
theorem isWhole_of_renderAt {indent : Option Nat} {level : Nat} {j : Json}
    (h : NoHalves (renderAt ⟨indent, false⟩ level j)) : j.IsWhole := by
  match j with
  | null | bool _ | int _ | float _ | arr [] | obj [] => trivial
  | str s => exact noHalves_of_writtenString h
  | arr (x :: xs) =>
    simp only [renderAt, noHalves_cons, noHalves_append] at h
    exact ⟨isWhole_of_renderAt h.2.1.1.1.2, itemsWhole_of_renderItems h.2.1.1.2⟩
  | obj ((k, x) :: fs) =>
    simp only [renderAt, noHalves_cons, noHalves_append] at h
    have hfield := h.2.1.1.1.2
    exact ⟨noHalves_of_writtenString hfield.1.1, isWhole_of_renderAt hfield.2,
      fieldsWhole_of_renderFields h.2.1.1.2⟩

theorem itemsWhole_of_renderItems {indent : Option Nat} {level : Nat} {items : List Json}
    (h : NoHalves (renderItems ⟨indent, false⟩ level items)) : ItemsWhole items := by
  match items with
  | [] => trivial
  | x :: xs =>
    simp only [renderItems, noHalves_append] at h
    exact ⟨isWhole_of_renderAt h.1.2, itemsWhole_of_renderItems h.2⟩

theorem fieldsWhole_of_renderFields {indent : Option Nat} {level : Nat}
    {fields : List (String × Json)} (h : NoHalves (renderFields ⟨indent, false⟩ level fields)) :
    FieldsWhole fields := by
  match fields with
  | [] => trivial
  | (k, x) :: fs =>
    simp only [renderFields, noHalves_append] at h
    have hfield := h.1.2
    exact ⟨noHalves_of_writtenString hfield.1.1, isWhole_of_renderAt hfield.2,
      fieldsWhole_of_renderFields h.2⟩

end

end BackendMigration.Json
