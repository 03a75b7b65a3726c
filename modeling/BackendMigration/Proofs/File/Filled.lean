import BackendMigration.File.Contents
import BackendMigration.Proofs.File.Tree
import BackendMigration.Proofs.Text.Utf8

/-! Trees in which some files of one directory are written. -/
namespace BackendMigration.File

/-- The file that holds a text. -/
def Node.ofText (text : Text) : Node := .file (String.ofList text).toUTF8

namespace Tree

variable {t base : Tree} {p q place : Path} {text : Text}

theorem writeText_of_receives (h : t.Receives p q) (hn : text.NoHalves) :
    t.writeText p text = (.ok (), t.setNode q (.ofText text)) := by
  unfold writeText
  rw [Utf8.encode_of_noHalves hn]
  dsimp only
  rw [h.write]
  rfl

theorem appendText_of_receives {before : Text} (h : t.Receives p q)
    (hb : t.node? q = some (.ofText before)) (hn : text.NoHalves) :
    t.appendText p text = (.ok (), t.setNode q (.ofText (before ++ text))) := by
  have hbytes : (String.ofList before).toUTF8 ++ (String.ofList text).toUTF8 =
      (String.ofList (before ++ text)).toUTF8 := (Utf8.toUTF8_append before text).symm
  unfold appendText
  rw [Utf8.encode_of_noHalves hn]
  dsimp only
  rw [h.append hb, Node.ofText, ← hbytes]
  rfl

/-- A text that has no bytes leaves the file empty. -/
theorem writeText_of_halves (h : t.Receives p q) (hn : ¬text.NoHalves) :
    ∃ u, t.writeText p text = (.error (.unwritable u), t.setNode q (.ofText [])) := by
  obtain ⟨u, hu⟩ := Utf8.encode_of_not_noHalves hn
  refine ⟨u, ?_⟩
  unfold writeText
  rw [hu]
  dsimp only
  rw [h.write]
  rfl

/-- Of a text that has no bytes nothing is added. -/
theorem appendText_of_halves {before : Text} (h : t.Receives p q)
    (hb : t.node? q = some (.ofText before)) (hn : ¬text.NoHalves) :
    ∃ u, t.appendText p text = (.error (.unwritable u), t.setNode q (.ofText before)) := by
  obtain ⟨u, hu⟩ := Utf8.encode_of_not_noHalves hn
  have hbytes : (String.ofList before).toUTF8 ++ ByteArray.empty = (String.ofList before).toUTF8 :=
    ByteArray.append_empty
  refine ⟨u, ?_⟩
  unfold appendText
  rw [hu]
  dsimp only
  rw [h.append hb, Except.toOption, Option.getD_none, hbytes]
  rfl

/-! Whether a text is written depends on the text and on where the path leads. -/

theorem fst_writeText_of_receives (h : t.Receives p q) (text : Text) :
    (t.writeText p text).1 = ((Utf8.encode text).mapError .unwritable).map fun _ => () := by
  unfold writeText
  dsimp only
  rw [h.write]

theorem fst_appendText_of_receives (h : t.Receives p q) (text : Text) :
    (t.appendText p text).1 = ((Utf8.encode text).mapError .unwritable).map fun _ => () := by
  have happend (bytes : ByteArray) : ∃ t', t.append p bytes = .ok t' := by
    unfold Tree.append
    split
    · exact ⟨_, h.write _⟩
    · exact ⟨_, h.write _⟩
  obtain ⟨t', ht⟩ := happend ((Utf8.encode text).toOption.getD .empty)
  unfold appendText
  dsimp only
  rw [ht]

theorem writeText_of_resolve_error {cause : Cause} (h : t.resolve p = .error cause) (text : Text) :
    t.writeText p text = (.error (.file ⟨cause, p.text⟩), t) := by
  unfold writeText Tree.write reach
  rw [h]
  rfl

/-- A path at which no file can be written is left alone. -/
theorem writeText_of_not_receives (h : ∀ q, ¬t.Receives p q) (text : Text) :
    ∃ f, t.writeText p text = (.error (.file f), t) := by
  unfold writeText
  dsimp only
  cases hw : t.write p ((Utf8.encode text).toOption.getD .empty) with
  | error f => exact ⟨f, rfl⟩
  | ok t' =>
    obtain ⟨q, hq⟩ := receives_of_write hw
    exact absurd hq (h q)

/-- A text that has bytes is not at fault. -/
theorem writeText_error {t' : Tree} {f : ContentsFault} (hn : text.NoHalves)
    (h : t.writeText p text = (.error f, t')) : ∃ g, f = .file g := by
  unfold writeText at h
  rw [Utf8.encode_of_noHalves hn] at h
  dsimp only at h
  split at h
  · cases h
    exact ⟨_, rfl⟩
  · cases h

theorem appendText_error {t' : Tree} {f : ContentsFault}
    (hn : text.NoHalves) (h : t.appendText p text = (.error f, t')) : ∃ g, f = .file g := by
  unfold appendText at h
  rw [Utf8.encode_of_noHalves hn] at h
  dsimp only at h
  split at h
  · cases h
    exact ⟨_, rfl⟩
  · cases h

/-- The file of a name in a directory. -/
def jsonFile (place : Path) (name : String) : Path := place.child (name ++ ".json")

theorem jsonFile_inj {a b : String} (h : jsonFile place a = jsonFile place b) : a = b := by
  simp only [jsonFile, Path.child, Path.mk.injEq, true_and] at h
  have hs : a ++ ".json" = b ++ ".json" := by simpa using h
  have hl := congrArg String.toList hs
  rw [String.toList_append, String.toList_append] at hl
  exact String.toList_injective (List.append_cancel_right hl)

/-- The texts of some names are written to their files, and all else is as in another tree. -/
structure Filled (base : Tree) (place : Path) (texts : String → Option Text) (t : Tree) : Prop where
  directories : KeepsDirectories base t
  file : ∀ name text, texts name = some text →
    t.node? (jsonFile place name) = some (.ofText text)
  other : ∀ p, (∀ name, texts name ≠ none → p ≠ jsonFile place name) → t.node? p = base.node? p

variable {texts : String → Option Text} {name : String}

theorem Filled.empty (base : Tree) (place : Path) : Filled base place (fun _ => none) base :=
  ⟨.refl base, fun _ _ h => (nomatch h), fun _ _ => rfl⟩

theorem Filled.congr {texts' : String → Option Text} (h : Filled base place texts t)
    (he : ∀ name, texts' name = texts name) : Filled base place texts' t := by
  have : texts' = texts := funext he
  rwa [this]

theorem Filled.not_directory (h : Filled base place texts t)
    (hn : base.node? (jsonFile place name) ≠ some .directory) :
    t.node? (jsonFile place name) ≠ some .directory := by
  cases ht : texts name with
  | some text => simp [h.file name text ht, Node.ofText]
  | none =>
    rw [h.other]
    · exact hn
    · intro other ho he
      rw [← jsonFile_inj he, ht] at ho
      exact ho rfl

theorem Filled.not_directory_base (h : Filled base place texts t)
    (hn : t.node? (jsonFile place name) ≠ some .directory) :
    base.node? (jsonFile place name) ≠ some .directory :=
  fun hd => hn (h.directories _ hd)

/-- No directory is made by writing files. -/
theorem Filled.keepsDirectories (h : Filled base place texts t) : KeepsDirectories t base := by
  intro p hp
  rw [← hp]
  refine (h.other p ?_).symm
  rintro name hname rfl
  obtain ⟨text, htext⟩ := Option.ne_none_iff_exists'.1 hname
  rw [h.file name text htext] at hp
  cases hp

theorem Filled.receives_base (h : Filled base place texts t)
    (hr : t.Receives p (jsonFile place name)) : base.Receives p (jsonFile place name) :=
  hr.of_keeps h.keepsDirectories (h.not_directory_base hr.not_directory)

theorem Filled.receives (h : Filled base place texts t) (hb : base.Receives p (jsonFile place name)) :
    t.Receives p (jsonFile place name) :=
  hb.of_keeps h.directories (h.not_directory hb.not_directory)

/-- One more file is written. -/
theorem Filled.setNode (h : Filled base place texts t)
    (hn : base.node? (jsonFile place name) ≠ some .directory) (text : Text) :
    Filled base place (fun other => if other = name then some text else texts other)
      (t.setNode (jsonFile place name) (.ofText text)) := by
  have hnt := h.not_directory hn
  constructor
  · intro p hp
    exact keepsDirectories_setNode hnt p (h.directories p hp)
  · intro other text' ht
    by_cases ho : other = name
    · subst ho
      rw [if_pos rfl] at ht
      cases ht
      exact node?_setNode_self hnt
    · rw [if_neg ho] at ht
      rw [node?_setNode_of_ne fun e => ho (jsonFile_inj e)]
      exact h.file other text' ht
  · intro p hp
    have hne : p ≠ jsonFile place name := hp name (by simp)
    rw [node?_setNode_of_ne hne]
    refine h.other p fun other ho => hp other ?_
    by_cases he : other = name
    · simp [he]
    · simpa [he] using ho

theorem Filled.read (h : Filled base place texts t) (hb : base.Receives p (jsonFile place name))
    (ht : texts name = some text) : t.read p = .ok (String.ofList text).toUTF8 :=
  read_of_node? (h.receives hb).resolve_eq (h.file name text ht)

end Tree
end BackendMigration.File
