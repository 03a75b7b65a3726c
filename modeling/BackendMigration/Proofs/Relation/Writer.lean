import BackendMigration.Proofs.Document.Entries
import BackendMigration.Proofs.File.Filled
import BackendMigration.Proofs.File.Way
import BackendMigration.Proofs.Json.Printer
import BackendMigration.Relation.Writer

/-! What the files of relations hold while a run writes to them, and at its end. -/
namespace BackendMigration.Relation

open File File.Tree Text

/-- The text of an array that is not closed yet. -/
def openArray (records : List Text) : Text := "[\n".toList ++ Text.join ",\n".toList records

/-- The text of a file that holds records, each given by its text. -/
def arrayText (records : List Text) : Text :=
  if records = [] then "[]\n".toList else openArray records ++ "\n]\n".toList

/-- A record has a text, and that has bytes. -/
def Writable (indent : Option Nat) (record : Document.Value) : Prop :=
  ∃ text, Writer.recordText indent record = .ok text ∧ text.NoHalves

theorem join_concat {separator t : Text} {ts : List Text} (h : ts ≠ []) :
    Text.join separator (ts ++ [t]) = Text.join separator ts ++ (separator ++ t) := by
  induction ts with
  | nil => exact absurd rfl h
  | cons s rest ih =>
    cases rest with
    | nil => simp [Text.join]
    | cons a r =>
      have := ih (List.cons_ne_nil a r)
      simp only [List.cons_append, Text.join] at this ⊢
      rw [this]
      simp only [List.append_assoc]

theorem openArray_concat {ts : List Text} (h : ts ≠ []) (t : Text) :
    openArray (ts ++ [t]) = openArray ts ++ ',' :: '\n' :: t := by
  rw [openArray, join_concat h, openArray, List.append_assoc]
  rfl

theorem jsonText_eq_ok_iff {indent : Option Nat} {j : Json} {text : Text} :
    Writer.jsonText indent j = .ok text ↔
      j.excess? (Json.maxDepth - 1) = none ∧ text = Json.render ⟨indent, false⟩ j := by
  unfold Writer.jsonText
  cases j.excess? (Json.maxDepth - 1) with
  | some x => simp
  | none => simp [eq_comm]

theorem recordText_eq_ok_iff {indent : Option Nat} {record : Document.Value} {text : Text} :
    Writer.recordText indent record = .ok text ↔ ∃ j, record.toJson = .ok j ∧
      j.excess? (Json.maxDepth - 1) = none ∧ text = Json.render ⟨indent, false⟩ j := by
  unfold Writer.recordText
  cases record.toJson with
  | error e =>
    change Except.error _ = _ ↔ _
    simp
  | ok j =>
    change Writer.jsonText indent j = _ ↔ _
    simp [jsonText_eq_ok_iff]

theorem writable_map_iff {indent : Option Nat} {entries : Document.Entries} :
    Writable indent (.map entries) ↔ ∃ fields, Document.Value.entriesToJson entries = .ok fields ∧
      ∀ f ∈ fields, f.2.excess? (Json.maxDepth - 2) = none ∧
        NoHalves (Json.renderField ⟨indent, false⟩ 1 f) := by
  have hobj (fields : List (String × Json)) : (Json.obj fields).excess? (Json.maxDepth - 1) = none ↔
      ∀ f ∈ fields, f.2.excess? (Json.maxDepth - 2) = none :=
    Json.excessOfFields?_eq_none_iff
  have hjson : (Document.Value.map entries).toJson =
      (Document.Value.entriesToJson entries).map Json.obj := by
    rw [Document.Value.toJson]
    cases Document.Value.entriesToJson entries <;> rfl
  simp only [Writable, recordText_eq_ok_iff, hjson]
  cases Document.Value.entriesToJson entries with
  | error e => simp [Except.map]
  | ok fields =>
    simp only [Except.map, Except.ok.injEq, exists_eq_left', hobj, forall_and,
      ← Json.noHalves_render_obj]
    constructor
    · rintro ⟨text, ⟨hfits, rfl⟩, hn⟩
      exact ⟨hfits, hn⟩
    · rintro ⟨hfits, hn⟩
      exact ⟨_, ⟨hfits, rfl⟩, hn⟩

theorem Writable.set {indent : Option Nat} {entries : Document.Entries}
    (h : Writable indent (.map entries)) {name s : String} (hn : NoHalves name.toList)
    (hs : NoHalves s.toList) : Writable indent (.map (entries.set name (.text s))) := by
  obtain ⟨fields, hf, hw⟩ := writable_map_iff.1 h
  obtain ⟨fields', hf', hmem⟩ := Document.Value.entriesToJson_put hf name s
  refine writable_map_iff.2 ⟨fields', hf', fun f hm => ?_⟩
  rcases hmem f hm with hm | rfl
  · exact hw f hm
  · have hcolon : NoHalves [':', ' '] := by decide
    simp only [Json.renderField, Json.renderAt_str, noHalves_append]
    exact ⟨rfl, ⟨Json.noHalves_writtenString hn, hcolon⟩, Json.noHalves_writtenString hs⟩

/-! Where relation files are. -/

theorem slash_not_mem_of_sanitize {r : String} (hr : sanitize r = r) : '/' ∉ r.toList := by
  intro h
  rw [← hr, sanitize, String.toList_ofList] at h
  obtain ⟨a, -, ha⟩ := List.mem_map.1 h
  split at ha
  · rename_i hname
    rw [ha] at hname
    exact absurd hname (by decide)
  · exact absurd ha (by decide)

/-- A relation whose name has no slash has a file in the directory. -/
theorem isName_json {r : String} (hr : '/' ∉ r.toList) : Path.IsName (r ++ ".json") := by
  have hlength : 5 ≤ (r ++ ".json").toList.length := by simp
  have hending : '/' ∉ ".json".toList := by decide
  constructor
  · intro h
    rw [h] at hlength
    simp at hlength
  · intro h
    rw [h] at hlength
    simp at hlength
  · intro h
    rw [h] at hlength
    simp at hlength
  · rw [String.toList_append, List.mem_append, not_or]
    exact ⟨hr, hending⟩

theorem path_eq_child (w : Writer) {r : String} (hr : '/' ∉ r.toList) :
    w.path r = w.directory.child (r ++ ".json") :=
  Path.join_of_isName (isName_json hr)

theorem eq_jsonFile_of_resolve {w : Writer} {base t : Tree} {place q : Path} {r : String}
    (hd : base.resolve w.directory = .ok place) (hr : '/' ∉ r.toList)
    (h : t.resolve (w.path r) = .ok q) : q = jsonFile place r := by
  rw [goal_of_resolve h, path_eq_child w hr, Path.goal_child,
    Path.follow_of_isName (isName_json hr), goal_of_resolve hd, jsonFile]

theorem eq_jsonFile_of_receives {w : Writer} {base : Tree} {place q : Path} {r : String}
    (hd : base.resolve w.directory = .ok place) (hr : '/' ∉ r.toList)
    (h : base.Receives (w.path r) q) : q = jsonFile place r :=
  eq_jsonFile_of_resolve hd hr h.resolve_eq

end BackendMigration.Relation
