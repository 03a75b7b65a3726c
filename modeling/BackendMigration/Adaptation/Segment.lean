import BackendMigration.Pattern.Match

/-! An edited text as a sequence of characters kept and stretches replaced. -/
namespace BackendMigration.Adaptation

/-- A piece of an edited text. -/
inductive Segment where
  | kept (c : Char)
  | replaced (old new : Text)
  deriving DecidableEq, Repr

/-- The text a segment stands for before the edits. -/
def Segment.before : Segment → Text
  | kept c => [c]
  | replaced old _ => old

/-- The text a segment stands for after the edits. -/
def Segment.after : Segment → Text
  | kept c => [c]
  | replaced _ new => new

/-- What happens at a place: a stretch is replaced, or it is kept whole and not looked into. -/
inductive Edit where
  | replace (length : Nat) (new : Text)
  | keep (length : Nat)
  deriving DecidableEq, Repr

/-- Ask at every place from the left; `dropped` and `copied` characters still belong to the last
edit. -/
def segmentsFrom (edit : Cursor → Option Edit) :
    (dropped copied : Nat) → Option Char → (offset : Nat) → Text → List Segment
  | _, _, _, _, [] => []
  | dropped + 1, copied, _, offset, c :: r =>
    segmentsFrom edit dropped copied (some c) (offset + 1) r
  | 0, copied + 1, _, offset, c :: r =>
    .kept c :: segmentsFrom edit 0 copied (some c) (offset + 1) r
  | 0, 0, previous, offset, c :: r =>
    match edit ⟨previous, c :: r, offset⟩ with
    | some (.replace n new) =>
      .replaced ((c :: r).take (n - 1 + 1)) new ::
        segmentsFrom edit (n - 1) 0 (some c) (offset + 1) r
    | some (.keep n) => .kept c :: segmentsFrom edit 0 (n - 1) (some c) (offset + 1) r
    | none => .kept c :: segmentsFrom edit 0 0 (some c) (offset + 1) r

/-- The segments of a text under edits. -/
def segments (edit : Cursor → Option Edit) (t : Text) : List Segment :=
  segmentsFrom edit 0 0 none 0 t

/-- The text after the edits. -/
def edited (edit : Cursor → Option Edit) (t : Text) : Text :=
  (segments edit t).flatMap Segment.after

/-- Replace every match of a pattern by a fixed text. -/
def substitution (p : Pattern) (new : Text) (c : Cursor) : Option Edit :=
  (p.matchAt? c).map fun m => .replace (m.stop - m.start) new

/-- What the segments stand for before the edits is the text, less what is dropped. -/
theorem flatMap_before_segmentsFrom (edit : Cursor → Option Edit) (t : Text) :
    ∀ (dropped copied : Nat) (previous : Option Char) (offset : Nat),
      (segmentsFrom edit dropped copied previous offset t).flatMap Segment.before =
        t.drop dropped := by
  induction t with
  | nil => intro d k p o; simp [segmentsFrom]
  | cons c r ih =>
    intro d k p o
    match d, k with
    | d + 1, k => simpa [segmentsFrom] using ih d k (some c) (o + 1)
    | 0, k + 1 => simp [segmentsFrom, Segment.before, ih]
    | 0, 0 =>
      unfold segmentsFrom
      split <;> simp [Segment.before, ih, List.take_append_drop]

/-- The segments make up the text. -/
theorem flatMap_before_segments (edit : Cursor → Option Edit) (t : Text) :
    (segments edit t).flatMap Segment.before = t := by
  simpa [segments] using flatMap_before_segmentsFrom edit t 0 0 none 0

end BackendMigration.Adaptation
