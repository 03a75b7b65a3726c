import BackendMigration.Json.Lexeme
import BackendMigration.Text.Search
import BackendMigration.Proofs.Decimal.Notation

/-! JSON texts as RFC 8259 defines them, and what they have outside of strings. -/
namespace BackendMigration.Json

open Text (join)
open Decimal (IsDigits IsWhole IsFraction)

/-! The grammar. -/

/-- `ws` -/
def IsBlank (t : Text) : Prop := ∀ c ∈ t, isSpace c = true

theorem isBlank_nil : IsBlank [] := List.forall_mem_nil _

/-- `exp = e [ minus / plus ] 1*DIGIT`, or nothing. -/
def IsPower (t : Text) : Prop :=
  t = [] ∨ ∃ e sign ds, (e = 'e' ∨ e = 'E') ∧ (sign = [] ∨ sign = ['-'] ∨ sign = ['+']) ∧ IsDigits ds ∧
    t = e :: (sign ++ ds)

/-- `number = [ minus ] int [ frac ] [ exp ]` -/
def IsNumber (t : Text) : Prop :=
  ∃ minus whole fraction power, (minus = [] ∨ minus = ['-']) ∧ IsWhole whole ∧ IsFraction fraction ∧
    IsPower power ∧ t = minus ++ (whole ++ (fraction ++ power))

/-- `char` -/
inductive IsCharacter : Text → Prop
  | unescaped {c : Char} : 0x20 ≤ c.toNat → c ≠ '"' → c ≠ '\\' → IsCharacter [c]
  | escaped {c : Char} : c ∈ ['"', '\\', '/', 'b', 'f', 'n', 'r', 't'] → IsCharacter ['\\', c]
  | unit {a b c d : Char} : (∀ x ∈ [a, b, c, d], (hexValue? x).isSome = true) →
      IsCharacter ['\\', 'u', a, b, c, d]

/-- `string = quotation-mark *char quotation-mark` -/
def IsString (t : Text) : Prop :=
  ∃ cs : List Text, (∀ c ∈ cs, IsCharacter c) ∧ t = '"' :: (cs.flatten ++ ['"'])

/-- The name of a member, with white space around it. -/
def IsName (t : Text) : Prop :=
  ∃ w s w', IsBlank w ∧ IsString s ∧ IsBlank w' ∧ t = w ++ (s ++ w')

/-- A member of an object, given by its name and its value. -/
def memberText (m : Text × Text) : Text := m.1 ++ ':' :: m.2

/-- `JSON-text = ws value ws`. In an array and in an object each item and each value is one too. -/
inductive IsStandard : Text → Prop
  | blank {w t w' : Text} : IsBlank w → IsStandard t → IsBlank w' → IsStandard (w ++ (t ++ w'))
  | name {s : String} : s ∈ ["null", "true", "false"] → IsStandard s.toList
  | number {t : Text} : IsNumber t → IsStandard t
  | string {t : Text} : IsString t → IsStandard t
  | emptyArray {w : Text} : IsBlank w → IsStandard ('[' :: (w ++ [']']))
  | array {items : List Text} : items ≠ [] → (∀ t ∈ items, IsStandard t) →
      IsStandard ('[' :: (join [','] items ++ [']']))
  | emptyObject {w : Text} : IsBlank w → IsStandard ('\x7b' :: (w ++ ['\x7d']))
  | object {members : List (Text × Text)} : members ≠ [] → (∀ m ∈ members, IsName m.1) →
      (∀ m ∈ members, IsStandard m.2) →
      IsStandard ('\x7b' :: (join [','] (members.map memberText) ++ ['\x7d']))

/-! What is outside of strings. -/

/-- Where a reader of a text is: outside of strings, in one, or behind a backslash in one. -/
inductive Mode where
  | code
  | text
  | escape
  deriving DecidableEq, Repr

namespace Mode

def next : Mode → Char → Mode
  | code, c => if c = '"' then text else code
  | text, c => if c = '"' then code else if c = '\\' then escape else text
  | escape, _ => text

def after (m : Mode) (t : Text) : Mode := t.foldl next m

/-- The characters that are read outside of strings. -/
def outside : Mode → Text → Text
  | _, [] => []
  | m, c :: r => if m = code then c :: outside (m.next c) r else outside (m.next c) r

@[simp] theorem after_append (m : Mode) (s t : Text) : m.after (s ++ t) = (m.after s).after t :=
  List.foldl_append

@[simp] theorem outside_append (m : Mode) (s t : Text) :
    m.outside (s ++ t) = m.outside s ++ (m.after s).outside t := by
  induction s generalizing m with
  | nil => rfl
  | cons c r ih =>
    simp only [List.cons_append, outside, ih]
    split <;> rfl

theorem code_of_not_mem {t : Text} (h : '"' ∉ t) : code.after t = code ∧ code.outside t = t := by
  induction t with
  | nil => exact ⟨rfl, rfl⟩
  | cons c r ih =>
    obtain ⟨hc, hr⟩ := List.ne_and_not_mem_of_not_mem_cons h
    have hnext : code.next c = code := if_neg (Ne.symm hc)
    obtain ⟨hafter, houtside⟩ := ih hr
    refine ⟨?_, ?_⟩
    · change (code.next c).after r = code
      rw [hnext, hafter]
    · rw [outside, if_pos rfl, hnext, houtside]

end Mode

open Mode

/-- A text that ends outside of strings and has none of the letters there that begin the names of the numbers
that are not finite. -/
structure Quiet (t : Text) : Prop where
  ends : code.after t = code
  outside : ∀ c ∈ code.outside t, c ≠ 'N' ∧ c ≠ 'I'

theorem quiet_append_iff {s t : Text} (hs : code.after s = code) : Quiet (s ++ t) ↔ Quiet s ∧ Quiet t := by
  constructor
  · rintro ⟨hends, houtside⟩
    rw [after_append, hs] at hends
    rw [outside_append, hs, List.forall_mem_append] at houtside
    exact ⟨⟨hs, houtside.1⟩, ⟨hends, houtside.2⟩⟩
  · rintro ⟨⟨-, houtside⟩, ⟨hends, houtside'⟩⟩
    refine ⟨by rw [after_append, hs, hends], ?_⟩
    rw [outside_append, hs, List.forall_mem_append]
    exact ⟨houtside, houtside'⟩

theorem Quiet.append {s t : Text} (hs : Quiet s) (ht : Quiet t) : Quiet (s ++ t) :=
  (quiet_append_iff hs.ends).2 ⟨hs, ht⟩

theorem quiet_of_forall {t : Text} (h : ∀ c ∈ t, c ≠ '"' ∧ c ≠ 'N' ∧ c ≠ 'I') : Quiet t := by
  obtain ⟨hends, houtside⟩ := code_of_not_mem fun hq => (h _ hq).1 rfl
  refine ⟨hends, fun c hc => ?_⟩
  rw [houtside] at hc
  exact (h c hc).2

theorem quiet_join {ts : List Text} (h : ∀ t ∈ ts, Quiet t) : Quiet (join [','] ts) := by
  have hcomma : Quiet [','] := quiet_of_forall (by simp)
  induction ts with
  | nil => exact quiet_of_forall (by simp [join])
  | cons t ts ih =>
    obtain ⟨ht, hts⟩ := List.forall_mem_cons.1 h
    cases ts with
    | nil => exact ht
    | cons u ts => exact (ht.append hcomma).append (ih hts)

theorem IsBlank.quiet {t : Text} (h : IsBlank t) : Quiet t := by
  refine quiet_of_forall fun c hc => ?_
  have hspace := h c hc
  refine ⟨?_, ?_, ?_⟩ <;>
  · rintro rfl
    exact absurd hspace (by decide)

theorem quiet_of_digits {t : Text} (h : ∀ c ∈ t, c.isDigit = true) : Quiet t := by
  refine quiet_of_forall fun c hc => ?_
  have hdigit := h c hc
  refine ⟨?_, ?_, ?_⟩ <;>
  · rintro rfl
    exact absurd hdigit (by decide)

theorem IsNumber.quiet {t : Text} (h : IsNumber t) : Quiet t := by
  obtain ⟨minus, whole, fraction, power, hminus, hwhole, hfraction, hpower, rfl⟩ := h
  have hnil : Quiet [] := quiet_of_forall (by simp)
  refine Quiet.append ?_ (Quiet.append ?_ (Quiet.append ?_ ?_))
  · rcases hminus with rfl | rfl
    · exact hnil
    · exact quiet_of_forall (by simp)
  · rcases hwhole with rfl | ⟨hdigits, -⟩
    · exact quiet_of_forall (by simp)
    · exact quiet_of_digits hdigits.2
  · rcases hfraction with rfl | ⟨ds, hds, rfl⟩
    · exact hnil
    · exact (quiet_of_forall (t := ['.']) (by simp)).append (quiet_of_digits hds.2)
  · rcases hpower with rfl | ⟨e, sign, ds, he, hsign, hds, rfl⟩
    · exact hnil
    · have hletter : Quiet [e] := by
        rcases he with rfl | rfl <;> exact quiet_of_forall (by simp)
      have hquiet : Quiet sign := by
        rcases hsign with rfl | rfl | rfl <;> exact quiet_of_forall (by simp)
      exact hletter.append (hquiet.append (quiet_of_digits hds.2))

theorem IsCharacter.after_text {t : Text} (h : IsCharacter t) : text.after t = text ∧ text.outside t = [] := by
  cases h with
  | @unescaped c _ hq hb =>
    have hnext : text.next c = text := by simp [next, hq, hb]
    exact ⟨hnext, rfl⟩
  | escaped => exact ⟨rfl, rfl⟩
  | @unit a b c d h =>
    have hnext : ∀ x ∈ [a, b, c, d], text.next x = text := by
      intro x hx
      have hhex := h x hx
      have hne : x ≠ '"' ∧ x ≠ '\\' := by
        constructor <;>
        · rintro rfl
          exact absurd hhex (by decide)
      simp [next, hne]
    simp only [List.forall_mem_cons] at hnext
    obtain ⟨ha, hb, hc, hd, -⟩ := hnext
    have hslash : text.next '\\' = escape := rfl
    have hu : escape.next 'u' = text := rfl
    constructor
    · simp [after, hslash, hu, ha, hb, hc, hd]
    · simp [outside, hslash, hu, ha, hb, hc]

theorem IsString.quiet {t : Text} (h : IsString t) : Quiet t := by
  obtain ⟨cs, hcs, rfl⟩ := h
  have hbody : text.after cs.flatten = text ∧ text.outside cs.flatten = [] := by
    induction cs with
    | nil => exact ⟨rfl, rfl⟩
    | cons c cs ih =>
      obtain ⟨hc, hcs⟩ := List.forall_mem_cons.1 hcs
      obtain ⟨hafter, houtside⟩ := hc.after_text
      obtain ⟨hafter', houtside'⟩ := ih hcs
      rw [List.flatten_cons, after_append, outside_append, hafter, houtside, hafter', houtside']
      exact ⟨rfl, rfl⟩
  have hends : text.after (cs.flatten ++ ['"']) = code := by
    rw [after_append, hbody.1]
    rfl
  refine ⟨hends, fun c hc => ?_⟩
  have houtside : code.outside ('"' :: (cs.flatten ++ ['"'])) = ['"'] := by
    change '"' :: text.outside (cs.flatten ++ ['"']) = ['"']
    rw [outside_append, hbody.1, hbody.2]
    rfl
  rw [houtside, List.mem_singleton] at hc
  subst hc
  decide

/-- A JSON text names no number that is not finite. -/
theorem IsStandard.quiet {t : Text} (h : IsStandard t) : Quiet t := by
  have hsign {c : Char} (hc : c ≠ '"' ∧ c ≠ 'N' ∧ c ≠ 'I') : Quiet [c] :=
    quiet_of_forall (List.forall_mem_singleton.2 hc)
  induction h with
  | blank hw _ hw' ih => exact hw.quiet.append (ih.append hw'.quiet)
  | @name s hs =>
    have all : ∀ s ∈ ["null", "true", "false"], ∀ c ∈ s.toList, c ≠ '"' ∧ c ≠ 'N' ∧ c ≠ 'I' := by simp
    exact quiet_of_forall (all s hs)
  | number h => exact h.quiet
  | string h => exact h.quiet
  | emptyArray hw => exact (hsign (by decide)).append (hw.quiet.append (hsign (by decide)))
  | array _ _ ih => exact (hsign (by decide)).append ((quiet_join ih).append (hsign (by decide)))
  | emptyObject hw => exact (hsign (by decide)).append (hw.quiet.append (hsign (by decide)))
  | @object members _ hnames _ ih =>
    have hmembers : ∀ t ∈ members.map memberText, Quiet t := by
      intro t ht
      obtain ⟨m, hm, rfl⟩ := List.mem_map.1 ht
      obtain ⟨w, s, w', hw, hs, hw', hname⟩ := hnames m hm
      rw [memberText, hname]
      exact (hw.quiet.append (hs.quiet.append hw'.quiet)).append ((hsign (by decide)).append (ih m hm))
    exact (hsign (by decide)).append ((quiet_join hmembers).append (hsign (by decide)))

end BackendMigration.Json
