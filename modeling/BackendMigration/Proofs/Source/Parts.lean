import BackendMigration.Proofs.Source.Nesting
import BackendMigration.Proofs.Text.Pieces

/-! Where a stretch lies in a text that is put together of others. -/
namespace BackendMigration.Text

variable {front t back s u w : Text} {c : Char}

/-- A stretch without a character lies on one side of it. -/
theorem stretch_beside (hc : c ∉ t) (ht : t ≠ []) (h : front ++ (t ++ back) = s ++ c :: u) :
    (∃ back', back = back' ++ c :: u ∧ s = front ++ (t ++ back')) ∨
      ∃ front', front = s ++ c :: front' ∧ u = front' ++ (t ++ back) := by
  rcases List.append_eq_append_iff.1 h with ⟨x, rfl, hx⟩ | ⟨x, rfl, hx⟩
  · rcases List.append_eq_append_iff.1 hx with ⟨y, rfl, hy⟩ | ⟨y, rfl, hy⟩
    · exact .inl ⟨y, hy, rfl⟩
    · cases y with
      | nil => exact .inl ⟨[], hy.symm, by simp⟩
      | cons a y =>
        obtain ⟨rfl, -⟩ := List.cons.inj hy
        exact absurd (List.mem_append_right x List.mem_cons_self) hc
  · cases x with
    | nil =>
      obtain ⟨a, r, rfl⟩ := List.exists_cons_of_ne_nil ht
      obtain ⟨rfl, -⟩ := List.cons.inj hx
      exact absurd List.mem_cons_self hc
    | cons a x =>
      obtain ⟨rfl, rfl⟩ := List.cons.inj hx
      exact .inr ⟨x, rfl, rfl⟩

/-- A text without a character begins another one only if it ends before the character there. -/
theorem append_eq_append_cons_iff (hc : c ∉ t) :
    t ++ back = s ++ c :: u ↔ ∃ back', back = back' ++ c :: u ∧ s = t ++ back' := by
  constructor
  · intro h
    rcases List.append_eq_append_iff.1 h with ⟨x, hs, hback⟩ | ⟨x, rfl, hx⟩
    · exact ⟨x, hback, hs⟩
    · cases x with
      | nil => exact ⟨[], hx.symm, by rw [List.append_nil, List.append_nil]⟩
      | cons a x =>
        obtain ⟨rfl, -⟩ := List.cons.inj hx
        exact absurd (List.mem_append_right s List.mem_cons_self) hc
  · rintro ⟨back', rfl, rfl⟩
    rw [List.append_assoc]

/-- A stretch that does not begin with white space lies behind white space. -/
theorem stretch_after_blank (hw : allBlank w = true) (ht : t.head?.any isBlank = false) (hne : t ≠ [])
    (h : front ++ (t ++ back) = w ++ u) : ∃ front', front = w ++ front' ∧ u = front' ++ (t ++ back) := by
  rcases List.append_eq_append_iff.1 h with ⟨x, rfl, hx⟩ | ⟨x, rfl, hx⟩
  · cases x with
    | nil => exact ⟨[], by simp, hx.symm⟩
    | cons a x =>
      obtain ⟨b, r, rfl⟩ := List.exists_cons_of_ne_nil hne
      obtain ⟨rfl, -⟩ := List.cons.inj hx
      have hb : isBlank b = true := List.all_eq_true.1 hw b (List.mem_append_right _ List.mem_cons_self)
      simp [hb] at ht
  · exact ⟨x, rfl, hx⟩

/-- A stretch that does not end with white space lies before white space. -/
theorem stretch_before_blank (hw : allBlank w = true) (ht : t.getLast?.any isBlank = false) (hne : t ≠ [])
    (h : front ++ (t ++ back) = s ++ w) : ∃ back', back = back' ++ w ∧ s = front ++ (t ++ back') := by
  rw [← List.append_assoc] at h
  rcases List.append_eq_append_iff.1 h with ⟨x, rfl, hx⟩ | ⟨x, hx, rfl⟩
  · exact ⟨x, hx, List.append_assoc ..⟩
  · rcases List.eq_nil_or_concat x with rfl | ⟨y, a, rfl⟩
    · exact ⟨[], rfl, by rw [List.append_nil, ← List.append_nil s, ← hx]⟩
    · have hlast : t.getLast? = some a := by
        have := congrArg List.getLast? hx
        rwa [List.getLast?_append_of_ne_nil _ hne, List.concat_eq_append, ← List.append_assoc,
          List.getLast?_concat] at this
      have ha : isBlank a = true := List.all_eq_true.1 hw a (by simp)
      simp [hlast, ha] at ht

end BackendMigration.Text

/-! The arguments of an argument text as its parts between commas, by what is read before each comma. -/
namespace BackendMigration.Source

open Text

theorem isBlank_of_isQuote {c : Char} (h : isQuote c = true) : isBlank c = false := by
  simp only [isQuote, Bool.or_eq_true, beq_iff_eq] at h
  rcases h with (rfl | rfl) | rfl <;> decide

/-- What has been read of an argument text: the literal that is open, and how many brackets are. -/
structure Reader where
  quote : Option Char
  depth : Int
  deriving DecidableEq, Repr

namespace Reader

/-- Before anything is read. -/
def start : Reader := ⟨none, 0⟩

/-- Read one character. -/
def step (s : Reader) (c : Char) : Reader :=
  match s.quote with
  | some q => ⟨if c = q then none else some q, s.depth⟩
  | none =>
    if isQuote c then ⟨some c, s.depth⟩
    else if isOpening c then ⟨none, s.depth + 1⟩
    else if isClosing c then ⟨none, s.depth - 1⟩
    else s

/-- Read a text. -/
def after (s : Reader) (t : Text) : Reader := t.foldl step s

/-- A character ends an argument. -/
def cuts (s : Reader) (c : Char) : Bool := s.quote == none && s.depth == 0 && c == ','

/-- The parts between the characters that end an argument, with the white space around them. -/
def parts (s : Reader) : Text → List Text
  | [] => [[]]
  | c :: r => if s.cuts c then [] :: s.parts r else ((s.step c).parts r).modifyHead (c :: ·)

variable {s : Reader} {c : Char} {t u : Text}

@[simp] theorem after_nil (s : Reader) : s.after [] = s := rfl

@[simp] theorem after_cons (s : Reader) (c : Char) (t : Text) : s.after (c :: t) = (s.step c).after t := rfl

@[simp] theorem after_append (s : Reader) (t u : Text) : s.after (t ++ u) = (s.after t).after u :=
  List.foldl_append

theorem parts_ne_nil (s : Reader) (t : Text) : s.parts t ≠ [] := by
  induction t generalizing s with
  | nil => exact List.cons_ne_nil _ _
  | cons c r ih =>
    rw [parts]
    split
    · exact List.cons_ne_nil _ _
    · obtain ⟨p, ps, hp⟩ := List.exists_cons_of_ne_nil (ih (s.step c))
      rw [hp]
      exact List.cons_ne_nil _ _

/-- The characters that end an argument change nothing in what is open. -/
theorem step_of_cuts (h : s.cuts c = true) : s.step c = s := by
  obtain ⟨quote, depth⟩ := s
  simp only [cuts, Bool.and_eq_true, beq_iff_eq] at h
  obtain ⟨⟨rfl, rfl⟩, rfl⟩ := h
  rfl

/-- No argument ends within a text. -/
def Whole (s : Reader) : Text → Prop
  | [] => True
  | c :: r => s.cuts c = false ∧ (s.step c).Whole r

theorem modifyHead_nil_append (ts : List Text) : ts.modifyHead ([] ++ ·) = ts := by
  cases ts <;> rfl

theorem parts_append_of_whole (h : s.Whole t) (u : Text) :
    s.parts (t ++ u) = ((s.after t).parts u).modifyHead (t ++ ·) := by
  induction t generalizing s with
  | nil => exact (modifyHead_nil_append _).symm
  | cons c r ih =>
    obtain ⟨hc, hr⟩ := h
    rw [List.cons_append, parts, hc, ih hr, List.modifyHead_modifyHead]
    rfl

theorem parts_cons_of_not_cuts (h : s.cuts c = false) (current t : Text) :
    (s.parts (c :: t)).modifyHead (current.reverse ++ ·) =
      ((s.step c).parts t).modifyHead ((c :: current).reverse ++ ·) := by
  simp [parts, h, List.modifyHead_modifyHead, Function.comp_def]

/-- The arguments are the parts without the white space around them. -/
theorem splitTextsFrom_eq (quote : Option Char) (depth : Int) (current t : Text) :
    splitTextsFrom quote depth current t =
      ((parts ⟨quote, depth⟩ t).modifyHead (current.reverse ++ ·)).map strip := by
  fun_induction splitTextsFrom quote depth current t with
  | case1 => simp [parts]
  | case2 depth current c r q ih =>
    rw [ih, parts_cons_of_not_cuts (by simp [cuts])]
    rfl
  | case3 depth current c r hq ih =>
    have hstep : step ⟨none, depth⟩ c = ⟨some c, depth⟩ := by simp [step, hq]
    have hcut : cuts ⟨none, depth⟩ c = false := by
      have : c ≠ ',' := by
        rintro rfl
        cases hq
      simp [cuts, this]
    rw [ih, parts_cons_of_not_cuts hcut, hstep]
  | case4 depth current c r hq ho ih =>
    have hstep : step ⟨none, depth⟩ c = ⟨none, depth + 1⟩ := by simp [step, hq, ho]
    have hcut : cuts ⟨none, depth⟩ c = false := by
      have : c ≠ ',' := by
        rintro rfl
        cases ho
      simp [cuts, this]
    rw [ih, parts_cons_of_not_cuts hcut, hstep]
  | case5 depth current c r hq ho hc ih =>
    have hstep : step ⟨none, depth⟩ c = ⟨none, depth - 1⟩ := by simp [step, hq, ho, hc]
    have hcut : cuts ⟨none, depth⟩ c = false := by
      have : c ≠ ',' := by
        rintro rfl
        cases hc
      simp [cuts, this]
    rw [ih, parts_cons_of_not_cuts hcut, hstep]
  | case6 depth current c r hq ho hc h ih =>
    obtain ⟨rfl, rfl⟩ := h
    have hcut : cuts ⟨none, 0⟩ ',' = true := rfl
    rw [ih, List.reverse_nil, modifyHead_nil_append, parts, hcut, if_pos rfl]
    simp
  | case7 depth current c r hq ho hc h ih =>
    have hstep : step ⟨none, depth⟩ c = ⟨none, depth⟩ := by simp [step, hq, ho, hc]
    have hcut : cuts ⟨none, depth⟩ c = false := by
      have : ¬(depth = 0 ∧ c = ',') := fun h' => h ⟨h'.2, h'.1⟩
      simpa [cuts] using this
    rw [ih, parts_cons_of_not_cuts hcut, hstep]

/-- An argument text is its parts with the commas between them. -/
theorem join_parts (s : Reader) (t : Text) : join [','] (s.parts t) = t := by
  induction t generalizing s with
  | nil => rfl
  | cons c r ih =>
    obtain ⟨p, ps, hp⟩ := List.exists_cons_of_ne_nil (parts_ne_nil (s.step c) r)
    have hr := ih (s.step c)
    rw [hp] at hr
    cases hcut : s.cuts c with
    | true =>
      rw [parts, hcut, if_pos rfl, ← step_of_cuts hcut, hp]
      obtain rfl : c = ',' := by
        simp only [cuts, Bool.and_eq_true, beq_iff_eq] at hcut
        exact hcut.2
      simp [join, hr]
    | false =>
      rw [parts, hcut, hp]
      cases ps <;> simp_all [join]

/-- Only a quote mark opens a literal. -/
def Proper (s : Reader) : Prop := ∀ q ∈ s.quote, isQuote q = true

theorem proper_start : start.Proper := nofun

theorem Proper.step (h : s.Proper) (c : Char) : (s.step c).Proper := by
  obtain ⟨_ | q, depth⟩ := s
  · intro q hq
    cases hc : isQuote c with
    | true =>
      have hq : q ∈ some c := by simpa [Reader.step, hc] using hq
      exact Option.some.inj hq ▸ hc
    | false =>
      simp only [Reader.step, hc, Bool.false_eq_true, if_false] at hq
      split at hq
      · cases hq
      · split at hq <;> cases hq
  · intro p hp
    by_cases hc : c = q
    · simp [Reader.step, hc] at hp
    · have hp : p ∈ some q := by simpa [Reader.step, hc] using hp
      exact h p hp

theorem Proper.after (h : s.Proper) (t : Text) : (s.after t).Proper := by
  induction t generalizing s with
  | nil => exact h
  | cons c t ih => exact ih (h.step c)

/-- Neither a quote mark nor a bracket. -/
def isPlain (c : Char) : Bool := !isQuote c && !isBracket c

theorem Proper.after_of_plain (h : s.Proper) (ht : t.all isPlain = true) : s.after t = s := by
  induction t with
  | nil => rfl
  | cons c t ih =>
    simp only [List.all_cons, isPlain, isBracket, Bool.and_eq_true, Bool.not_eq_true',
      Bool.or_eq_false_iff] at ht
    obtain ⟨⟨hq, ho, hc⟩, ht⟩ := ht
    have hstep : s.step c = s := by
      obtain ⟨_ | q, depth⟩ := s
      · simp [Reader.step, hq, ho, hc]
      · have hne : c ≠ q := by
          rintro rfl
          rw [h c rfl] at hq
          cases hq
        simp [Reader.step, hne]
    rw [after_cons, hstep]
    exact ih ht

theorem length_parts_append (s : Reader) (t u : Text) :
    (s.parts (t ++ u)).length + 1 = (s.parts t).length + ((s.after t).parts u).length := by
  induction t generalizing s with
  | nil => exact Nat.add_comm ..
  | cons c t ih =>
    have := ih (s.step c)
    rw [List.cons_append, parts, parts, after_cons]
    cases hc : s.cuts c with
    | true =>
      rw [step_of_cuts hc] at this ⊢
      simp only [if_true, List.length_cons]
      omega
    | false => simpa using this

theorem length_parts_pos (s : Reader) (t : Text) : 0 < (s.parts t).length :=
  List.length_pos_iff.2 (parts_ne_nil s t)

theorem length_parts_of_not_mem (h : ',' ∉ t) : (s.parts t).length = 1 := by
  induction t generalizing s with
  | nil => rfl
  | cons c t ih =>
    have hc : s.cuts c = false := by
      have : c ≠ ',' := fun hc => h (hc ▸ List.mem_cons_self)
      simp [cuts, this]
    rw [parts, hc]
    simpa using ih fun ht => h (List.mem_cons_of_mem _ ht)

/-- One text can stand for another: the same is open after both, and it is cut as often at least. -/
def Covers (old new : Text) : Prop :=
  ∀ s : Reader, s.Proper → s.after new = s.after old ∧ (s.parts old).length ≤ (s.parts new).length

theorem Covers.append {old old' new new' : Text} (h : Covers old new) (h' : Covers old' new') :
    Covers (old ++ old') (new ++ new') := by
  intro s hs
  obtain ⟨ha, hl⟩ := h s hs
  obtain ⟨ha', hl'⟩ := h' (s.after old) (hs.after old)
  have hlength := length_parts_append s old old'
  have hlength' := length_parts_append s new new'
  rw [ha] at hlength'
  refine ⟨by rw [after_append, after_append, ha, ha'], by omega⟩

theorem covers_refl (t : Text) : Covers t t := fun _ _ => ⟨rfl, Nat.le_refl _⟩

theorem covers_of_not_mem (h : ',' ∉ t) (ha : ∀ s : Reader, s.Proper → s.after u = s.after t) :
    Covers t u := by
  intro s hs
  rw [length_parts_of_not_mem h]
  exact ⟨ha s hs, length_parts_pos s u⟩

theorem isPlain_of_isBlank (h : isBlank c = true) : isPlain c = true := by
  have hq : isQuote c = false := Bool.eq_false_iff.2 fun hq => by
    rw [isBlank_of_isQuote hq] at h
    cases h
  simp [isPlain, hq, not_isBracket_of_isBlank h]

theorem Proper.after_blank (h : s.Proper) (ht : allBlank t = true) : s.after t = s :=
  h.after_of_plain (List.all_eq_true.2 fun c hc => isPlain_of_isBlank (List.all_eq_true.1 ht c hc))

theorem covers_blank (ht : allBlank t = true) : Covers t [] := by
  refine covers_of_not_mem (fun hc => ?_) fun s hs => (hs.after_blank ht).symm
  exact absurd (List.all_eq_true.1 ht _ hc) (by decide)

theorem covers_strip (t : Text) : Covers t (strip t) := by
  obtain ⟨w, w', ht, hw, hw'⟩ := exists_strip t
  have := (covers_blank hw).append ((covers_refl (strip t)).append (covers_blank hw'))
  rwa [← ht, List.nil_append, List.append_nil] at this

end Reader

theorem splitTextsFrom_start (t : Text) : splitTextsFrom none 0 [] t = (Reader.start.parts t).map strip := by
  have h := Reader.splitTextsFrom_eq none 0 [] t
  rwa [List.reverse_nil, Reader.modifyHead_nil_append] at h

/-- Joining the arguments again is joining the parts without the white space around them. -/
theorem join_argumentTexts (separator t : Text) :
    join separator (argumentTexts t) = join separator ((Reader.start.parts t).map strip) := by
  unfold argumentTexts
  split
  · rename_i he
    rw [← splitTextsFrom_start, he]
    rfl
  · rw [splitTextsFrom_start]

/-- The only argument is all of the text. -/
theorem argumentTexts_eq_singleton_iff {t u : Text} (hu : u ≠ []) :
    argumentTexts t = [u] ↔ (Reader.start.parts t).length = 1 ∧ strip t = u := by
  have hparts : (Reader.start.parts t).length = 1 ↔ Reader.start.parts t = [t] := by
    constructor
    · intro h
      obtain ⟨part, hpart⟩ := List.length_eq_one_iff.1 h
      have hjoin := Reader.join_parts Reader.start t
      rw [hpart] at hjoin
      rw [hpart, ← hjoin]
      rfl
    · intro h
      rw [h]
      rfl
  rw [hparts]
  unfold argumentTexts
  split
  · rename_i he
    rw [splitTextsFrom_start] at he
    constructor
    · intro h
      cases h
    · rintro ⟨h, rfl⟩
      rw [h] at he
      exact absurd (List.singleton_inj.1 he) hu
  · rw [splitTextsFrom_start]
    constructor
    · intro h
      obtain ⟨part, hpart, rfl⟩ := List.map_eq_singleton_iff.1 h
      have hjoin := Reader.join_parts Reader.start t
      rw [hpart] at hjoin
      obtain rfl : part = t := hjoin
      exact ⟨hpart, rfl⟩
    · rintro ⟨h, rfl⟩
      rw [h]
      rfl

end BackendMigration.Source
