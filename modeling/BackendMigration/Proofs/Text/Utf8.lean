import BackendMigration.Text.Utf8

/-! Which texts have bytes. -/
namespace BackendMigration

/-- No character of the text holds half of a pair. -/
def Text.NoHalves (t : Text) : Prop := ∀ c ∈ t, Text.half? c = none

namespace Text

variable {s t : Text}

@[simp] theorem noHalves_nil : NoHalves [] := fun _ h => absurd h List.not_mem_nil

@[simp] theorem noHalves_cons {c : Char} : NoHalves (c :: t) ↔ half? c = none ∧ NoHalves t := by
  simp [NoHalves]

@[simp] theorem noHalves_append : NoHalves (s ++ t) ↔ NoHalves s ∧ NoHalves t := by
  simp [NoHalves, or_imp, forall_and]

instance (t : Text) : Decidable t.NoHalves :=
  decidable_of_iff (t.all fun c => (Text.half? c).isNone) (by simp [NoHalves])

end Text

namespace Utf8

variable {s t : Text}

/-- The texts without bytes are those with a half. -/
theorem unwritable?_eq_none_iff : unwritable? t = none ↔ t.NoHalves := by
  induction t with
  | nil => simp [unwritable?]
  | cons c r ih =>
    cases h : Text.half? c with
    | none => simpa [unwritable?, h] using ih
    | some unit => simp [unwritable?, h]

theorem encode_of_noHalves (h : t.NoHalves) : encode t = .ok (String.ofList t).toUTF8 := by
  rw [encode, unwritable?_eq_none_iff.2 h]

theorem encode_of_not_noHalves (h : ¬t.NoHalves) : ∃ u, encode t = .error u := by
  cases hu : unwritable? t with
  | none => exact absurd (unwritable?_eq_none_iff.1 hu) h
  | some u => exact ⟨u, by rw [encode, hu]⟩

theorem toUTF8_append (s t : Text) :
    (String.ofList (s ++ t)).toUTF8 = (String.ofList s).toUTF8 ++ (String.ofList t).toUTF8 := by
  simp

end Utf8
end BackendMigration
