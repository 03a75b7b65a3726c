import BackendMigration.Proofs.Source.Parts
import Mathlib.Data.List.Induction

/-! Source text as code and literals, and what joining the arguments of a call again makes of it. -/
namespace BackendMigration.Source

open Text

/-- A character outside of literals, or a literal with what stands between its quote marks. -/
inductive Piece where
  | code (c : Char)
  | literal (mark : Char) (body : Text)
  deriving DecidableEq, Repr

/-- The inside of a literal: its quote mark stands only behind a backslash, and no backslash is the last
character but behind another one. -/
def isBody (mark : Char) : Text → Bool
  | [] => true
  | [c] => c != '\\' && c != mark
  | c :: d :: r => if c = '\\' then isBody mark r else c != mark && isBody mark (d :: r)

namespace Piece

def text : Piece → Text
  | code c => [c]
  | literal mark body => mark :: (body ++ [mark])

/-- Code has no quote mark, and a literal begins and ends with its own. -/
def Valid : Piece → Prop
  | code c => isQuote c = false
  | literal mark body => isQuote mark = true ∧ isBody mark body = true

/-- A literal does not have its own quote mark inside, not even behind a backslash. -/
def Bare : Piece → Prop
  | code _ => True
  | literal mark body => mark ∉ body

/-- White space outside of literals. -/
def isBlank : Piece → Bool
  | code c => Text.isBlank c
  | literal _ _ => false

/-- By how much a piece changes the number of open brackets. -/
def depth : Piece → Int
  | code c => if isOpening c then 1 else if isClosing c then -1 else 0
  | literal _ _ => 0

end Piece

/-- The text that pieces make up. -/
def sourceText (ps : List Piece) : Text := ps.flatMap Piece.text

/-- The arguments of a call: its pieces between the commas that are outside of brackets. -/
def ownArguments (depth : Int) : List Piece → List (List Piece)
  | [] => [[]]
  | p :: ps =>
    if p = .code ',' ∧ depth = 0 then [] :: ownArguments depth ps
    else (ownArguments (depth + p.depth) ps).modifyHead (p :: ·)

/-- Pieces without the white space around them. -/
def trimPieces (ps : List Piece) : List Piece :=
  ((ps.dropWhile Piece.isBlank).reverse.dropWhile Piece.isBlank).reverse

/-- The arguments with a comma and one blank between them. -/
def respaced (ps : List Piece) : List Piece :=
  [.code ',', .code ' '].intercalate ((ownArguments 0 ps).map trimPieces)

/-- The pieces that are no white space: the code, and every literal with all that is in it. -/
def solid (ps : List Piece) : List Piece := ps.filter (!·.isBlank)

variable {ps qs : List Piece} {p : Piece}

@[simp] theorem sourceText_nil : sourceText [] = [] := rfl

@[simp] theorem sourceText_cons (p : Piece) (ps : List Piece) :
    sourceText (p :: ps) = p.text ++ sourceText ps := rfl

@[simp] theorem sourceText_append (ps qs : List Piece) :
    sourceText (ps ++ qs) = sourceText ps ++ sourceText qs := List.flatMap_append

/-! Reading pieces. -/

theorem Reader.after_of_not_mem {q : Char} {t : Text} (h : q ∉ t) (depth : Int) :
    (Reader.mk (some q) depth).after t = ⟨some q, depth⟩ ∧ (Reader.mk (some q) depth).Whole t := by
  induction t with
  | nil => exact ⟨rfl, trivial⟩
  | cons c r ih =>
    rw [List.mem_cons, not_or] at h
    have hstep : (Reader.mk (some q) depth).step c = ⟨some q, depth⟩ := by
      simp [Reader.step, Ne.symm h.1]
    rw [Reader.after_cons, hstep]
    refine ⟨(ih h.2).1, by simp [Reader.cuts], ?_⟩
    rw [hstep]
    exact (ih h.2).2

theorem Reader.whole_append {s : Reader} {t u : Text} :
    s.Whole (t ++ u) ↔ s.Whole t ∧ (s.after t).Whole u := by
  induction t generalizing s with
  | nil => simp [Whole]
  | cons c r ih => simp [Whole, ih, and_assoc]

/-- A piece is read as a whole, from outside of literals to outside of literals, unless it is a comma that
ends an argument. -/
theorem Reader.read_piece (hv : p.Valid) (hb : p.Bare) {depth : Int} (hp : ¬(p = .code ',' ∧ depth = 0)) :
    (Reader.mk none depth).after p.text = ⟨none, depth + p.depth⟩ ∧ (Reader.mk none depth).Whole p.text := by
  cases p with
  | code c =>
    have hquote : isQuote c = false := hv
    have hcut : ¬(depth = 0 ∧ c = ',') := fun h => hp ⟨by rw [h.2], h.1⟩
    refine ⟨?_, by simpa [Reader.cuts] using hcut, trivial⟩
    change (Reader.mk none depth).step c = _
    unfold Reader.step Piece.depth
    simp only [hquote, Bool.false_eq_true, if_false]
    split
    · rfl
    · split
      · rfl
      · rw [Int.add_zero]
  | literal mark body =>
    obtain ⟨hmark, -⟩ := hv
    have hopen : (Reader.mk none depth).step mark = ⟨some mark, depth⟩ := by simp [Reader.step, hmark]
    have hclose : (Reader.mk (some mark) depth).step mark = ⟨none, depth⟩ := by simp [Reader.step]
    have hcomma : mark ≠ ',' := by
      rintro rfl
      cases hmark
    obtain ⟨hafter, hwhole⟩ := Reader.after_of_not_mem hb depth
    constructor
    · rw [Piece.text, Reader.after_cons, hopen, Reader.after_append, hafter, Reader.after_cons, hclose,
        Reader.after_nil, Piece.depth, Int.add_zero]
    · refine ⟨by simp [Reader.cuts, hcomma], ?_⟩
      rw [hopen, Reader.whole_append, hafter]
      exact ⟨hwhole, by simp [Reader.cuts], trivial⟩

/-- The arguments of a call are the parts that are read. -/
theorem parts_sourceText (hv : ∀ p ∈ ps, p.Valid) (hb : ∀ p ∈ ps, p.Bare) (depth : Int) :
    (Reader.mk none depth).parts (sourceText ps) = (ownArguments depth ps).map sourceText := by
  induction ps generalizing depth with
  | nil => rfl
  | cons p ps ih =>
    rw [List.forall_mem_cons] at hv hb
    rw [ownArguments]
    split
    · rename_i h
      obtain ⟨rfl, rfl⟩ := h
      rw [List.map_cons, ← ih hv.2 hb.2]
      rfl
    · rename_i h
      obtain ⟨hafter, hwhole⟩ := Reader.read_piece hv.1 hb.1 h
      rw [sourceText_cons, Reader.parts_append_of_whole hwhole, hafter, ih hv.2 hb.2]
      cases ownArguments (depth + p.depth) ps <;> rfl

/-! White space around pieces. -/

/-- A text that does not begin with white space keeps its first character. -/
theorem dropWhile_isBlank_append {p : Piece} (hv : p.Valid) (h : p.isBlank = false) (t : Text) :
    (p.text ++ t).dropWhile Text.isBlank = p.text ++ t := by
  cases p with
  | code c =>
    have hc : ¬Text.isBlank c = true := by simpa [Piece.isBlank] using h
    exact List.dropWhile_cons_of_neg hc
  | literal mark body =>
    have hmark : ¬Text.isBlank mark = true := by simp [isBlank_of_isQuote hv.1]
    exact List.dropWhile_cons_of_neg hmark

theorem dropWhile_isBlank_reverse {p : Piece} (hv : p.Valid) (h : p.isBlank = false) (t : Text) :
    (t ++ p.text).reverse.dropWhile Text.isBlank = (t ++ p.text).reverse := by
  cases p with
  | code c =>
    have hc : ¬Text.isBlank c = true := by simpa [Piece.isBlank] using h
    rw [Piece.text, List.reverse_append]
    exact List.dropWhile_cons_of_neg hc
  | literal mark body =>
    have hmark : ¬Text.isBlank mark = true := by simp [isBlank_of_isQuote hv.1]
    rw [Piece.text, List.reverse_append, List.reverse_cons, List.reverse_append]
    exact List.dropWhile_cons_of_neg hmark

theorem trimStart_sourceText (hv : ∀ p ∈ ps, p.Valid) :
    (sourceText ps).dropWhile Text.isBlank = sourceText (ps.dropWhile Piece.isBlank) := by
  induction ps with
  | nil => rfl
  | cons p ps ih =>
    rw [List.forall_mem_cons] at hv
    cases hp : p.isBlank with
    | true =>
      cases p with
      | code c =>
        have hc : Text.isBlank c = true := hp
        rw [List.dropWhile_cons_of_pos hp, ← ih hv.2]
        exact List.dropWhile_cons_of_pos hc
      | literal => cases hp
    | false =>
      rw [sourceText_cons, dropWhile_isBlank_append hv.1 hp, List.dropWhile_cons_of_neg (by simp [hp])]
      rfl

theorem trimEnd_sourceText (hv : ∀ p ∈ ps, p.Valid) :
    ((sourceText ps).reverse.dropWhile Text.isBlank).reverse =
      sourceText (ps.reverse.dropWhile Piece.isBlank).reverse := by
  induction ps using List.reverseRecOn with
  | nil => rfl
  | append_singleton ps p ih =>
    simp only [List.mem_append, List.mem_singleton] at hv
    have hp' := hv p (.inr rfl)
    rw [List.reverse_append, List.reverse_singleton, List.singleton_append]
    cases hp : p.isBlank with
    | true =>
      cases p with
      | code c =>
        have hc : Text.isBlank c = true := hp
        rw [List.dropWhile_cons_of_pos hp, ← ih fun q hq => hv q (.inl hq), sourceText_append,
          List.reverse_append]
        exact congrArg List.reverse (List.dropWhile_cons_of_pos hc)
      | literal => cases hp
    | false =>
      rw [sourceText_append, sourceText_cons, sourceText_nil, List.append_nil,
        dropWhile_isBlank_reverse hp' hp, List.dropWhile_cons_of_neg (by simp [hp]), List.reverse_reverse,
        List.reverse_cons, List.reverse_reverse, sourceText_append, sourceText_cons, sourceText_nil,
        List.append_nil]

theorem strip_sourceText (hv : ∀ p ∈ ps, p.Valid) : strip (sourceText ps) = sourceText (trimPieces ps) := by
  have hstart : ∀ p ∈ ps.dropWhile Piece.isBlank, p.Valid :=
    fun p hp => hv p ((List.dropWhile_sublist _).subset hp)
  rw [strip, trim, trimEnd, trimStart, trimStart_sourceText hv, trimEnd_sourceText hstart, trimPieces]

theorem exists_ownArguments (depth : Int) (ps : List Piece) :
    ∃ arg args, ownArguments depth ps = arg :: args := by
  induction ps generalizing depth with
  | nil => exact ⟨_, _, rfl⟩
  | cons p ps ih =>
    rw [ownArguments]
    split
    · exact ⟨_, _, rfl⟩
    · obtain ⟨arg, args, h⟩ := ih (depth + p.depth)
      exact ⟨p :: arg, args, by rw [h]; rfl⟩

/-- The arguments with the commas between them are all pieces. -/
theorem intercalate_ownArguments (depth : Int) (ps : List Piece) :
    [.code ','].intercalate (ownArguments depth ps) = ps := by
  induction ps generalizing depth with
  | nil => rfl
  | cons p ps ih =>
    rw [ownArguments]
    split
    · rename_i h
      obtain ⟨arg, args, hargs⟩ := exists_ownArguments depth ps
      have := ih depth
      rw [hargs] at this ⊢
      rw [h.1, ← this]
      rfl
    · obtain ⟨arg, args, hargs⟩ := exists_ownArguments (depth + p.depth) ps
      have := ih (depth + p.depth)
      rw [hargs] at this ⊢
      rw [← this]
      cases args <;> rfl

theorem mem_of_mem_ownArguments {depth : Int} {arg : List Piece} (h : arg ∈ ownArguments depth ps) :
    ∀ p ∈ arg, p ∈ ps := by
  intro p hp
  rw [← intercalate_ownArguments depth ps]
  generalize ownArguments depth ps = args at h
  induction args with
  | nil => cases h
  | cons first args ih =>
    cases args with
    | nil =>
      obtain rfl := List.mem_singleton.1 h
      simpa [List.intercalate] using hp
    | cons second args =>
      rw [List.intercalate, List.intersperse_cons_cons, List.flatten_cons, List.flatten_cons]
      rcases List.mem_cons.1 h with rfl | h
      · exact List.mem_append_left _ hp
      · exact List.mem_append_right _ (List.mem_append_right _ (ih h))

theorem sourceText_intercalate (separator : List Piece) (args : List (List Piece)) :
    sourceText (separator.intercalate args) = join (sourceText separator) (args.map sourceText) := by
  induction args with
  | nil => rfl
  | cons first args ih =>
    cases args with
    | nil => simp [List.intercalate, join]
    | cons second args =>
      have hjoin : join (sourceText separator) ((first :: second :: args).map sourceText) =
          sourceText first ++ sourceText separator ++
            join (sourceText separator) ((second :: args).map sourceText) := rfl
      rw [hjoin, ← ih, List.intercalate, List.intersperse_cons_cons, List.flatten_cons, List.flatten_cons,
        sourceText_append, sourceText_append, List.append_assoc]
      rfl

/-- What is written for an argument text, as pieces. -/
theorem join_argumentTexts_sourceText (hv : ∀ p ∈ ps, p.Valid) (hb : ∀ p ∈ ps, p.Bare) :
    join ", ".toList (argumentTexts (sourceText ps)) = sourceText (respaced ps) := by
  have hstrip : ((ownArguments 0 ps).map sourceText).map strip =
      ((ownArguments 0 ps).map trimPieces).map sourceText := by
    rw [List.map_map, List.map_map]
    refine List.map_congr_left fun arg harg => ?_
    exact strip_sourceText fun p hp => hv p (mem_of_mem_ownArguments harg p hp)
  rw [join_argumentTexts, Reader.start, parts_sourceText hv hb, hstrip, respaced, sourceText_intercalate]
  rfl

/-! What stays of the pieces. -/

theorem solid_append (ps qs : List Piece) : solid (ps ++ qs) = solid ps ++ solid qs :=
  List.filter_append ..

theorem solid_dropWhile (ps : List Piece) : solid (ps.dropWhile Piece.isBlank) = solid ps := by
  induction ps with
  | nil => rfl
  | cons p ps ih =>
    cases hp : p.isBlank with
    | true =>
      rw [List.dropWhile_cons_of_pos hp, ih]
      simp [hp, solid]
    | false => simp [hp, solid]

theorem solid_trimPieces (ps : List Piece) : solid (trimPieces ps) = solid ps := by
  have hreverse (ps : List Piece) : solid ps.reverse = (solid ps).reverse := List.filter_reverse ..
  rw [trimPieces, hreverse, solid_dropWhile, hreverse, List.reverse_reverse, solid_dropWhile]

theorem solid_intercalate {separator separator' : List Piece} (h : solid separator = solid separator')
    (args : List (List Piece)) :
    solid (separator.intercalate (args.map trimPieces)) = solid (separator'.intercalate args) := by
  induction args with
  | nil => rfl
  | cons first args ih =>
    cases args with
    | nil => simp [List.intercalate, solid_trimPieces]
    | cons second args =>
      rw [List.map_cons, List.map_cons, List.intercalate, List.intercalate, List.intersperse_cons_cons,
        List.intersperse_cons_cons, List.flatten_cons, List.flatten_cons, List.flatten_cons,
        List.flatten_cons, solid_append, solid_append, solid_append, solid_append, solid_trimPieces, h]
      exact congrArg _ (congrArg _ ih)

/-- Joining the arguments of a call again changes white space outside of literals only. -/
theorem solid_respaced (ps : List Piece) : solid (respaced ps) = solid ps := by
  have hcomma : solid [.code ',', .code ' '] = solid [.code ','] := by decide
  rw [respaced, solid_intercalate hcomma, intercalate_ownArguments]

end BackendMigration.Source
