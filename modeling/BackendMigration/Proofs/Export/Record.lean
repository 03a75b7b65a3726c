import BackendMigration.Export.Walk
import BackendMigration.Proofs.Document.Identity
import BackendMigration.Proofs.Relation.Writer
import BackendMigration.Text.Word

/-! The record of a document: its data, its id and where it is nested. -/
namespace BackendMigration.Export

open Document (identityFields isFree)
open Text (NoHalves)

/-- The fields that tell where a document is nested. -/
def linkageFields : List String := ["parent_collection", "parent_document_id", "collection_path"]

/-- The field that takes the id of a document: the first identity field without a value. -/
def identityField? (entries : Document.Entries) : Option String :=
  identityFields.find? (isFree entries)

/-- A record holds the id of a document, where it is nested, and besides that its data. -/
structure Records (record : Document.Entries) (d : StoredDocument) (linkage : Option Linkage) :
    Prop where
  identity : ∀ name, identityField? d.entries = some name → record.get? name = some (.text d.id)
  linked : ∀ l, linkage = some l → record.get? "parent_collection" = some (.text l.relation) ∧
    record.get? "parent_document_id" = some (.text l.documentId) ∧
    record.get? "collection_path" = some (.text l.path)
  data : ∀ name, identityField? d.entries ≠ some name → (linkage = none ∨ name ∉ linkageFields) →
    record.get? name = d.entries.get? name

variable {d : StoredDocument} {linkage : Option Linkage} {indent : Option Nat}

theorem get?_assignIdentity (entries : Document.Entries) (id name : String) :
    (Document.assignIdentity entries id).2.get? name =
      if identityField? entries = some name then some (.text id) else entries.get? name :=
  Document.get?_assignIdentity entries id name

theorem not_mem_linkageFields_of_identityField? {entries : Document.Entries} {name : String}
    (h : identityField? entries = some name) : name ∉ linkageFields := by
  have all : ∀ name ∈ identityFields, name ∉ linkageFields := by decide
  exact all name (List.mem_of_find?_eq_some h)

theorem records_baseRecord (d : StoredDocument) (linkage : Option Linkage) :
    Records (baseRecord d linkage) d linkage := by
  cases linkage with
  | none =>
    refine ⟨fun name h => ?_, fun l h => (nomatch h), fun name h _ => ?_⟩
    · rw [baseRecord, get?_assignIdentity, if_pos h]
    · rw [baseRecord, get?_assignIdentity, if_neg h]
  | some l =>
    have hother (name : String) (h : name ∉ linkageFields) : (baseRecord d (some l)).get? name =
        (Document.assignIdentity d.entries d.id).2.get? name := by
      simp only [linkageFields, List.mem_cons, List.not_mem_nil, or_false, not_or] at h
      simp only [baseRecord, Document.Entries.get?_set, h.1, h.2.1, h.2.2, if_false]
    refine ⟨fun name h => ?_, fun l' h => ?_, fun name h hl => ?_⟩
    · rw [hother name (not_mem_linkageFields_of_identityField? h), get?_assignIdentity, if_pos h]
    · cases h
      simp [baseRecord, Document.Entries.get?_set]
    · have hname := hl.resolve_left (by simp)
      rw [hother name hname, get?_assignIdentity, if_neg h]

/-! Which records can be written. -/

theorem noHalves_sanitize (name : String) : NoHalves (Relation.sanitize name).toList := by
  intro c hc
  rw [Relation.sanitize, String.toList_ofList] at hc
  obtain ⟨a, -, rfl⟩ := List.mem_map.1 hc
  split
  · rename_i ha
    have hlt : a.toNat < 128 := Text.toNat_lt_of_isAlphanum ha
    rw [Text.half?, if_neg (by omega)]
  · decide

theorem writable_baseRecord (hd : Relation.Writable indent (.map d.entries))
    (hid : NoHalves d.id.toList)
    (hl : ∀ l, linkage = some l → NoHalves l.relation.toList ∧ NoHalves l.documentId.toList ∧
      NoHalves l.path.toList) : Relation.Writable indent (.map (baseRecord d linkage)) := by
  have hidentity : ∀ name ∈ identityFields, NoHalves name.toList := by decide
  have hfields : ∀ name ∈ linkageFields, NoHalves name.toList := by decide
  have hassigned : Relation.Writable indent (.map (Document.assignIdentity d.entries d.id).2) := by
    unfold Document.assignIdentity
    split
    · rename_i name hname
      exact hd.set (hidentity name (List.mem_of_find?_eq_some hname)) hid
    · exact hd
  cases linkage with
  | none => exact hassigned
  | some l =>
    obtain ⟨hrelation, hdocument, hpath⟩ := hl l rfl
    have hparent := hassigned.set (hfields "parent_collection" (by decide)) hrelation
    have hparentId := hparent.set (hfields "parent_document_id" (by decide)) hdocument
    exact hparentId.set (hfields "collection_path" (by decide)) hpath

end BackendMigration.Export
