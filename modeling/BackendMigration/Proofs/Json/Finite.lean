import BackendMigration.Proofs.Json.Lexeme
import BackendMigration.Proofs.Json.Printer
import BackendMigration.Proofs.Json.Standard

/-! Printed JSON is standard exactly if all its numbers are finite. -/
namespace BackendMigration

def Double.isFinite : Double → Bool
  | finite _ _ _ => true
  | infinite _ | nan => false

namespace Json

open Text (join)
open Mode (code)

mutual

/-- The doubles in a value. -/
def floats : Json → List Double
  | float x => [x]
  | arr items => floatsOfItems items
  | obj fields => floatsOfFields fields
  | _ => []

def floatsOfItems : List Json → List Double
  | [] => []
  | x :: xs => floats x ++ floatsOfItems xs

def floatsOfFields : List (String × Json) → List Double
  | [] => []
  | (_, x) :: fs => floats x ++ floatsOfFields fs

end

/-- All numbers in the value are finite. -/
def IsFinite (j : Json) : Prop := ∀ x ∈ j.floats, x.isFinite = true

theorem isFinite_arr_iff {items : List Json} : (arr items).IsFinite ↔ ∀ x ∈ items, x.IsFinite := by
  unfold IsFinite
  rw [floats]
  induction items with
  | nil => simp [floatsOfItems]
  | cons x xs ih => rw [floatsOfItems, List.forall_mem_append, ih, List.forall_mem_cons]

theorem isFinite_obj_iff {fields : List (String × Json)} :
    (obj fields).IsFinite ↔ ∀ f ∈ fields, f.2.IsFinite := by
  unfold IsFinite
  rw [floats]
  induction fields with
  | nil => simp [floatsOfFields]
  | cons f fs ih => rw [floatsOfFields, List.forall_mem_append, ih, List.forall_mem_cons]

/-- Induction over a value, with what holds of all its items and fields. -/
@[elab_as_elim]
theorem inductionOn {motive : Json → Prop} (null : motive null) (bool : ∀ b, motive (bool b))
    (int : ∀ n, motive (int n)) (float : ∀ x, motive (float x)) (str : ∀ s, motive (str s))
    (arr : ∀ items, (∀ x ∈ items, motive x) → motive (arr items))
    (obj : ∀ fields, (∀ f ∈ fields, motive f.2) → motive (obj fields)) : ∀ j, motive j
  | .null => null
  | .bool b => bool b
  | .int n => int n
  | .float x => float x
  | .str s => str s
  | .arr items => arr items fun x _ => inductionOn null bool int float str arr obj x
  | .obj fields => obj fields fun f _ => inductionOn null bool int float str arr obj f.2
termination_by j => sizeOf j
decreasing_by
  · have := List.sizeOf_lt_of_mem ‹_›
    simp only [Json.arr.sizeOf_spec]
    omega
  · have := List.sizeOf_lt_of_mem ‹_›
    have : sizeOf f = 1 + sizeOf f.1 + sizeOf f.2 := rfl
    simp only [Json.obj.sizeOf_spec]
    omega

/-! The written form as a list of items. -/

variable {style : Style} {level : Nat}

theorem isBlank_lineBreak (style : Style) (level : Nat) : IsBlank (style.lineBreak level) := by
  unfold Style.lineBreak
  split
  · refine List.forall_mem_cons.2 ⟨by decide, fun c hc => ?_⟩
    rw [List.eq_of_mem_replicate hc]
    decide
  · exact isBlank_nil

theorem exists_separator (style : Style) (level : Nat) :
    ∃ w, IsBlank w ∧ style.separator level = ',' :: w := by
  unfold Style.separator
  split
  · exact ⟨_, isBlank_lineBreak style level, rfl⟩
  · exact ⟨[' '], List.forall_mem_singleton.2 rfl, rfl⟩

theorem renderItems_eq (xs : List Json) : renderItems style level xs =
    xs.flatMap fun x => style.separator level ++ renderAt style level x := by
  induction xs with
  | nil => rfl
  | cons x xs ih => rw [renderItems, ih, List.flatMap_cons]

theorem renderFields_eq (fs : List (String × Json)) : renderFields style level fs =
    fs.flatMap fun f => style.separator level ++ renderField style level f := by
  induction fs with
  | nil => rfl
  | cons f fs ih =>
    rw [renderFields, ih, List.flatMap_cons]
    rfl

/-- What stands between the brackets of an array, or the braces of an object. -/
def body {α : Type} (style : Style) (level : Nat) (f : α → Text) (a : α) (as : List α) : Text :=
  style.lineBreak (level + 1) ++ f a ++ as.flatMap (fun b => style.separator (level + 1) ++ f b) ++
    style.lineBreak level

theorem renderAt_arr (x : Json) (xs : List Json) : renderAt style level (arr (x :: xs)) =
    '[' :: (body style level (renderAt style (level + 1)) x xs ++ [']']) := by
  rw [renderAt, renderItems_eq]
  rfl

theorem renderAt_obj (f : String × Json) (fs : List (String × Json)) : renderAt style level (obj (f :: fs)) =
    '\x7b' :: (body style level (renderField style (level + 1)) f fs ++ ['\x7d']) := by
  obtain ⟨k, x⟩ := f
  rw [renderAt_obj_cons, renderFields_eq]
  rfl

/-- The body is a list of parts with commas between them, if what is written of each member is one of the
parts also with white space around it. -/
theorem exists_body_eq_join (style : Style) (level : Nat) {α β : Type} {f : α → Text} {g : β → Text}
    {P : β → Prop} {a : α} {as : List α}
    (h : ∀ b ∈ a :: as, ∀ w w', IsBlank w → IsBlank w' → ∃ c, P c ∧ g c = w ++ (f b ++ w')) :
    ∃ cs, cs ≠ [] ∧ (∀ c ∈ cs, P c) ∧ join [','] (cs.map g) = body style level f a as := by
  obtain ⟨gap, hgap, hseparator⟩ := exists_separator style (level + 1)
  have hend := isBlank_lineBreak style level
  unfold body
  rw [hseparator]
  -- The white space before a part is that of the separator, but for the first one.
  generalize hw : style.lineBreak (level + 1) = w
  have hblank : IsBlank w := hw ▸ isBlank_lineBreak style (level + 1)
  clear hw hseparator
  induction as generalizing a w with
  | nil =>
    obtain ⟨c, hc, hg⟩ := h a List.mem_cons_self w _ hblank hend
    refine ⟨[c], List.cons_ne_nil _ _, List.forall_mem_singleton.2 hc, ?_⟩
    simp [join, hg]
  | cons b as ih =>
    obtain ⟨c, hc, hg⟩ := h a List.mem_cons_self w [] hblank isBlank_nil
    obtain ⟨cs, hne, hcs, hjoin⟩ := ih (fun x hx => h x (List.mem_cons_of_mem _ hx)) gap hgap
    obtain ⟨c', cs, rfl⟩ := List.exists_cons_of_ne_nil hne
    refine ⟨c :: c' :: cs, List.cons_ne_nil _ _, List.forall_mem_cons.2 ⟨hc, hcs⟩, ?_⟩
    rw [List.map_cons] at hjoin
    simp only [List.map_cons, join, hjoin, hg]
    simp

theorem isStandard_array {α : Type} {f : α → Text} {a : α} {as : List α} (h : ∀ b ∈ a :: as, IsStandard (f b)) :
    IsStandard ('[' :: (body style level f a as ++ [']'])) := by
  obtain ⟨items, hne, hitems, hjoin⟩ := exists_body_eq_join style level (g := id) (P := IsStandard)
    fun b hb w w' hw hw' => ⟨_, .blank hw (h b hb) hw', rfl⟩
  rw [List.map_id] at hjoin
  rw [← hjoin]
  exact .array hne hitems

/-! Finite numbers. -/

theorem isNumber_of_parts {t whole fraction exponent : Text} (h : Decimal.Parts t whole fraction exponent)
    (negative : Bool) : IsNumber ((if negative then ['-'] else []) ++ t) := by
  refine ⟨_, whole, fraction, exponent, ?_, h.isWhole, h.isFraction, ?_, by rw [h.eq]⟩
  · cases negative
    · exact .inl rfl
    · exact .inr rfl
  · rcases h.isExponent with rfl | ⟨sign, ds, hsign, hds, rfl⟩
    · exact .inl rfl
    · refine .inr ⟨'e', [sign], ds, .inl rfl, .inr ?_, hds, rfl⟩
      rcases hsign with rfl | rfl
      · exact .inr rfl
      · exact .inl rfl

theorem isStandard_int (n : Int) : IsStandard (toString n).toList := by
  have hparts : Decimal.Parts (Nat.toDigits 10 n.natAbs) (Nat.toDigits 10 n.natAbs) [] [] :=
    ⟨by simp, Decimal.isWhole_toDigits _, .inl rfl, .inl rfl⟩
  have hnumber := isNumber_of_parts hparts (decide (n < 0))
  rw [toList_toString_int]
  exact .number (by simpa using hnumber)

theorem isStandard_float {x : Double} (h : x.isFinite = true) :
    IsStandard (Decimal.renderWith Decimal.spelled x) := by
  cases x with
  | finite negative m e =>
    obtain ⟨whole, fraction, exponent, hparts, -⟩ :=
      Decimal.exists_parts_renderMagnitude Decimal.spelled (.finite negative m e)
    exact .number (isNumber_of_parts hparts negative)
  | infinite | nan => cases h

/-! Strings. -/

theorem isCharacter_unitEscape {n : Nat} (hn : n < 0x10000) : IsCharacter (unitEscape n) := by
  obtain ⟨a, b, c, d, hhex, hquad⟩ := hexQuad?_hex hn
  simp only [hexQuad?, Option.bind_eq_bind, Option.bind_eq_some_iff] at hquad
  obtain ⟨_, ha, _, hb, _, hc, _, hd, -⟩ := hquad
  rw [unitEscape, hhex]
  exact .unit (by simp [ha, hb, hc, hd])

theorem exists_characters_charEscape (c : Char) :
    ∃ cs : List Text, (∀ t ∈ cs, IsCharacter t) ∧ charEscape c = cs.flatten := by
  have hvalid : c.toNat < 0xD800 ∨ 0xDFFF < c.toNat ∧ c.toNat < 0x110000 := c.valid
  unfold charEscape
  split
  · rename_i hsmall
    exact ⟨[_], List.forall_mem_singleton.2 (isCharacter_unitEscape hsmall), (List.append_nil _).symm⟩
  · split
    · rename_i half hhalf
      have hunit : half < 0x10000 := by
        unfold Text.half? at hhalf
        split at hhalf
        · obtain rfl := Option.some.inj hhalf
          omega
        · cases hhalf
      exact ⟨[_], List.forall_mem_singleton.2 (isCharacter_unitEscape hunit), (List.append_nil _).symm⟩
    · refine ⟨[unitEscape (0xD800 + (c.toNat - 0x10000) / 0x400),
        unitEscape (0xDC00 + (c.toNat - 0x10000) % 0x400)], ?_, by simp⟩
      rw [List.forall_mem_cons, List.forall_mem_singleton]
      exact ⟨isCharacter_unitEscape (by omega), isCharacter_unitEscape (by omega)⟩

theorem exists_characters (ascii : Bool) (c : Char) :
    ∃ cs : List Text, (∀ t ∈ cs, IsCharacter t) ∧ writtenChar ascii c = cs.flatten := by
  unfold writtenChar
  iterate 7
    split
    · exact ⟨[_], List.forall_mem_singleton.2 (.escaped (by decide)), rfl⟩
  split
  · exact exists_characters_charEscape c
  · rename_i hquote hslash _ _ _ _ _ hc
    refine ⟨[[c]], List.forall_mem_singleton.2 (.unescaped ?_ hquote hslash), rfl⟩
    omega

theorem isString_writtenString (ascii : Bool) (s : Text) : IsString (writtenString ascii s) := by
  have hbody : ∃ cs : List Text, (∀ t ∈ cs, IsCharacter t) ∧ s.flatMap (writtenChar ascii) = cs.flatten := by
    induction s with
    | nil => exact ⟨[], List.forall_mem_nil _, rfl⟩
    | cons c s ih =>
      obtain ⟨cs, hcs, hc⟩ := exists_characters ascii c
      obtain ⟨ds, hds, hs⟩ := ih
      refine ⟨cs ++ ds, List.forall_mem_append.2 ⟨hcs, hds⟩, ?_⟩
      rw [List.flatMap_cons, hc, hs, List.flatten_append]
  obtain ⟨cs, hcs, hflat⟩ := hbody
  exact ⟨cs, hcs, by rw [writtenString, hflat]⟩

/-! Values. -/

/-- A value whose numbers are finite is written as standard JSON. -/
theorem isStandard_renderAt {j : Json} (h : j.IsFinite) (level : Nat) :
    IsStandard (renderAt style level j) := by
  induction j using inductionOn generalizing level with
  | null => exact .name (by decide)
  | bool b => cases b <;> exact .name (by decide)
  | int n => exact isStandard_int n
  | float x => exact isStandard_float (h x (List.mem_singleton_self x))
  | str s => exact .string (isString_writtenString style.ascii s.toList)
  | arr items ih =>
    rw [isFinite_arr_iff] at h
    cases items with
    | nil => exact .emptyArray isBlank_nil
    | cons x xs =>
      rw [renderAt_arr]
      exact isStandard_array fun y hy => ih y hy (h y hy) _
  | obj fields ih =>
    rw [isFinite_obj_iff] at h
    cases fields with
    | nil => exact .emptyObject isBlank_nil
    | cons f fs =>
      have hparts : ∀ g ∈ f :: fs, ∀ w w', IsBlank w → IsBlank w' → ∃ m : Text × Text,
          (IsName m.1 ∧ IsStandard m.2) ∧ memberText m = w ++ (renderField style (level + 1) g ++ w') := by
        intro g hg w w' hw hw'
        refine ⟨(w ++ writtenString style.ascii g.1.toList, ' ' :: (renderAt style (level + 1) g.2 ++ w')),
          ⟨?_, ?_⟩, by simp [memberText, renderField]⟩
        · exact ⟨w, writtenString style.ascii g.1.toList, [], hw, isString_writtenString _ _, isBlank_nil,
            by simp⟩
        · exact .blank (w := [' ']) (List.forall_mem_singleton.2 rfl) (ih g hg (h g hg) _) hw'
      obtain ⟨members, hne, hmembers, hjoin⟩ := exists_body_eq_join style level hparts
      rw [renderAt_obj, ← hjoin]
      exact .object hne (fun m hm => (hmembers m hm).1) fun m hm => (hmembers m hm).2

/-! Numbers that are not finite. -/

theorem after_flatMap {α : Type} {f : α → Text} {as : List α} (h : ∀ a ∈ as, code.after (f a) = code) :
    code.after (as.flatMap f) = code ∧ (Quiet (as.flatMap f) → ∀ a ∈ as, Quiet (f a)) := by
  induction as with
  | nil => exact ⟨rfl, fun _ => List.forall_mem_nil _⟩
  | cons a as ih =>
    obtain ⟨ha, has⟩ := List.forall_mem_cons.1 h
    obtain ⟨hafter, hquiet⟩ := ih has
    rw [List.flatMap_cons, Mode.after_append, ha, quiet_append_iff ha]
    exact ⟨hafter, fun h => List.forall_mem_cons.2 ⟨h.1, hquiet h.2⟩⟩

theorem after_body (style : Style) (level : Nat) {α : Type} {f : α → Text} {a : α} {as : List α}
    (h : ∀ b ∈ a :: as, code.after (f b) = code) : code.after (body style level f a as) = code ∧
      (Quiet (body style level f a as) → ∀ b ∈ a :: as, Quiet (f b)) := by
  obtain ⟨gap, hgap, hseparator⟩ := exists_separator style (level + 1)
  have hquiet : Quiet (style.separator (level + 1)) := by
    rw [hseparator, ← List.singleton_append]
    exact (quiet_of_forall (t := [',']) (by simp)).append hgap.quiet
  have hstart := (isBlank_lineBreak style (level + 1)).quiet
  have hend := (isBlank_lineBreak style level).quiet
  obtain ⟨ha, has⟩ := List.forall_mem_cons.1 h
  have hpart : ∀ b ∈ as, code.after (style.separator (level + 1) ++ f b) = code := by
    intro b hb
    rw [Mode.after_append, hquiet.ends, has b hb]
  obtain ⟨hafter, hquiet'⟩ := after_flatMap hpart
  unfold body
  rw [List.append_assoc, List.append_assoc, Mode.after_append, hstart.ends, Mode.after_append, ha,
    Mode.after_append, hafter, hend.ends, quiet_append_iff hstart.ends, quiet_append_iff ha,
    quiet_append_iff hafter]
  refine ⟨rfl, fun ⟨_, hqa, hqas, _⟩ => List.forall_mem_cons.2 ⟨hqa, fun b hb => ?_⟩⟩
  exact ((quiet_append_iff hquiet.ends).1 (hquiet' hqas b hb)).2

/-- An array or an object is quiet only if its members are. -/
theorem after_enclosed (style : Style) (level : Nat) {α : Type} {f : α → Text} {a : α} {as : List α}
    {o c : Char} (ho : o ≠ '"') (hc : c ≠ '"')
    (h : ∀ b ∈ a :: as, code.after (f b) = code) : code.after (o :: (body style level f a as ++ [c])) = code ∧
      (Quiet (o :: (body style level f a as ++ [c])) → ∀ b ∈ a :: as, Quiet (f b)) := by
  have hopening : code.after [o] = code := if_neg ho
  have hclosing : code.after [c] = code := if_neg hc
  obtain ⟨hafter, hquiet⟩ := after_body style level h
  rw [← List.singleton_append, Mode.after_append, hopening, Mode.after_append, hafter, hclosing,
    quiet_append_iff hopening, quiet_append_iff hafter]
  exact ⟨rfl, fun h => hquiet h.2.1⟩

theorem after_float {x : Double} (h : x.isFinite = false) :
    code.after (Decimal.renderWith Decimal.spelled x) = code ∧
      ¬Quiet (Decimal.renderWith Decimal.spelled x) := by
  cases x with
  | finite => cases h
  | nan => exact ⟨by decide, fun h => absurd rfl (h.outside 'N' (by decide)).1⟩
  | infinite negative =>
    cases negative
    · exact ⟨by decide, fun h => absurd rfl (h.outside 'I' (by decide)).2⟩
    · exact ⟨by decide, fun h => absurd rfl (h.outside 'I' (by decide)).2⟩

/-- The written form of a value ends outside of strings, and is quiet only if all numbers are finite. -/
theorem after_renderAt (style : Style) (j : Json) (level : Nat) : code.after (renderAt style level j) = code ∧
    (Quiet (renderAt style level j) → j.IsFinite) := by
  induction j using inductionOn generalizing level with
  | null => exact ⟨rfl, fun _ => List.forall_mem_nil _⟩
  | bool b => cases b <;> exact ⟨rfl, fun _ => List.forall_mem_nil _⟩
  | int n => exact ⟨(isStandard_int n).quiet.ends, fun _ => List.forall_mem_nil _⟩
  | float x =>
    cases hx : x.isFinite with
    | true => exact ⟨(isStandard_float hx).quiet.ends, fun _ => List.forall_mem_singleton.2 hx⟩
    | false =>
      obtain ⟨hafter, hquiet⟩ := after_float hx
      exact ⟨hafter, fun h => absurd h hquiet⟩
  | str s => exact ⟨(isString_writtenString style.ascii s.toList).quiet.ends, fun _ => List.forall_mem_nil _⟩
  | arr items ih =>
    rw [isFinite_arr_iff]
    cases items with
    | nil => exact ⟨rfl, fun _ => List.forall_mem_nil _⟩
    | cons x xs =>
      obtain ⟨hends, hquiet⟩ := after_enclosed style level (o := '[') (c := ']') (by decide)
        (by decide) fun y hy => (ih y hy (level + 1)).1
      rw [renderAt_arr]
      exact ⟨hends, fun h y hy => (ih y hy _).2 (hquiet h y hy)⟩
  | obj fields ih =>
    rw [isFinite_obj_iff]
    cases fields with
    | nil => exact ⟨rfl, fun _ => List.forall_mem_nil _⟩
    | cons f fs =>
      have hcolon : Quiet [':', ' '] := quiet_of_forall (by simp)
      have hname (k : String) : Quiet (writtenString style.ascii k.toList ++ [':', ' ']) :=
        (isString_writtenString _ _).quiet.append hcolon
      have hfield : ∀ g ∈ f :: fs, code.after (renderField style (level + 1) g) = code := by
        intro g hg
        rw [renderField, Mode.after_append, (hname g.1).ends, (ih g hg _).1]
      obtain ⟨hends, hquiet⟩ := after_enclosed style level (o := '\x7b') (c := '\x7d')
        (by decide) (by decide) hfield
      rw [renderAt_obj]
      refine ⟨hends, fun h g hg => (ih g hg (level + 1)).2 ?_⟩
      exact ((quiet_append_iff (hname g.1).ends).1 (hquiet h g hg)).2

/-- The written form of a value is standard JSON exactly if all its numbers are finite. -/
theorem isStandard_render_iff {j : Json} : IsStandard (render style j) ↔ j.IsFinite :=
  ⟨fun h => (after_renderAt style j 0).2 h.quiet, fun h => isStandard_renderAt h 0⟩

end Json
end BackendMigration
