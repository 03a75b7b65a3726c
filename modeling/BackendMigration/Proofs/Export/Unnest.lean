import BackendMigration.Export.Walk
import BackendMigration.Proofs.Document.Entries
import BackendMigration.Proofs.Json.Reader
import BackendMigration.Proofs.Keyed

/-! Taking nested records apart into records of relations. -/
namespace BackendMigration

namespace Export

open Json (settled settledFields settledItems)

/-- Records of relations, one after another. -/
abbrev Batches := List (String × List Json)

namespace Batches

/-- The records of one relation. -/
def recordsOf (batches : Batches) (r : String) : List Json :=
  (batches.filter (·.1 == r)).flatMap (·.2)

/-- The relations that there are, also those without records. -/
def relations (batches : Batches) : List String := batches.map (·.1)

/-- The records with their relations. -/
def entries (batches : Batches) : List (String × Json) :=
  batches.flatMap fun b => b.2.map fun j => (b.1, j)

@[simp] theorem entries_append (bs bs' : Batches) : (bs ++ bs').entries = bs.entries ++ bs'.entries :=
  List.flatMap_append

@[simp] theorem relations_append (bs bs' : Batches) :
    (bs ++ bs').relations = bs.relations ++ bs'.relations :=
  List.map_append

theorem recordsOf_eq (batches : Batches) (r : String) :
    batches.recordsOf r = (batches.entries.filter (·.1 == r)).map (·.2) := by
  induction batches with
  | nil => rfl
  | cons b rest ih =>
    obtain ⟨name, records⟩ := b
    have hhead : ((records.map fun j => (name, j)).filter (·.1 == r)).map (·.2) =
        if name == r then records else [] := by
      cases h : name == r <;> simp [List.filter_map, Function.comp_def, h]
    have hentries : entries ((name, records) :: rest) =
        records.map (fun j => (name, j)) ++ entries rest := rfl
    rw [hentries, List.filter_append, List.map_append, hhead, ← ih]
    cases h : name == r <;> simp [recordsOf, h]

end Batches

mutual

/-- The record without what is nested in it, then the nested records in the order in which they are
kept. -/
def unnest (relation : String) : Json → Batches
  | .obj fields =>
    (relation, [.obj (Keyed.erase subcollectionsField fields)]) :: unnestFields relation fields
  | j => [(relation, [j])]

def unnestFields (relation : String) : List (String × Json) → Batches
  | [] => []
  | (name, .obj groups) :: rest =>
    if name = subcollectionsField then unnestGroups relation groups else unnestFields relation rest
  | _ :: rest => unnestFields relation rest

/-- The records under each name of a collection, after the relation that they go to. -/
def unnestGroups (relation : String) : List (String × Json) → Batches
  | [] => []
  | (name, .arr records) :: rest =>
    (nestedRelation relation name, []) ::
      (unnestItems (nestedRelation relation name) records ++ unnestGroups relation rest)
  | _ :: rest => unnestGroups relation rest

def unnestItems (relation : String) : List Json → Batches
  | [] => []
  | j :: rest => unnest relation j ++ unnestItems relation rest

end

theorem unnestFields_append {fields : List (String × Json)} (h : subcollectionsField ∉ Keyed.keys fields)
    (relation : String) (rest : List (String × Json)) :
    unnestFields relation (fields ++ rest) = unnestFields relation rest := by
  induction fields with
  | nil => rfl
  | cons f fields ih =>
    obtain ⟨name, j⟩ := f
    rw [Keyed.keys_cons, List.mem_cons, not_or] at h
    have hname : name ≠ subcollectionsField := fun he => h.1 he.symm
    cases j <;> simp [unnestFields, hname, ih h.2]

theorem erase_of_not_mem {fields : List (String × Json)}
    (h : subcollectionsField ∉ Keyed.keys fields) :
    Keyed.erase subcollectionsField fields = fields := by
  refine List.filter_eq_self.2 fun f hf => ?_
  have hne : f.1 ≠ subcollectionsField := fun he => h (he ▸ List.mem_map_of_mem hf)
  simpa using hne

/-- A record with nothing nested in it. -/
theorem unnest_plain {fields : List (String × Json)} (h : subcollectionsField ∉ Keyed.keys fields)
    (relation : String) : unnest relation (.obj fields) = [(relation, [.obj fields])] := by
  have hfields := unnestFields_append h relation []
  rw [List.append_nil] at hfields
  rw [unnest, erase_of_not_mem h, hfields, unnestFields]

theorem unnest_nested {fields : List (String × Json)} (h : subcollectionsField ∉ Keyed.keys fields)
    (relation : String) (groups : List (String × Json)) :
    unnest relation (.obj (fields ++ [(subcollectionsField, .obj groups)])) =
      (relation, [.obj fields]) :: unnestGroups relation groups := by
  have herase : Keyed.erase subcollectionsField (fields ++ [(subcollectionsField, .obj groups)]) =
      fields := by
    have happend : Keyed.erase subcollectionsField (fields ++ [(subcollectionsField, .obj groups)]) =
        Keyed.erase subcollectionsField fields ++ [] := by
      simp [Keyed.erase]
    rw [happend, erase_of_not_mem h, List.append_nil]
  rw [unnest, herase, unnestFields_append h, unnestFields, if_pos rfl]

example : (unnest "u" (.obj [("a", .int 1), (subcollectionsField,
    .obj [("o", .arr [.obj [("b", .int 2)]]), ("p", .arr [])])])) =
    [("u", [.obj [("a", .int 1)]]), ("u_o", []), ("u_o", [.obj [("b", .int 2)]]), ("u_p", [])] := by
  decide

/-! Records as they are read back. -/

variable {fields groups : List (String × Json)} {relation : String}

theorem keys_settledFields (fields : List (String × Json)) :
    Keyed.keys (settledFields fields) = Keyed.keys fields := by
  induction fields with
  | nil => rfl
  | cons f rest ih => rw [settledFields, Keyed.keys_cons, Keyed.keys_cons, ih]

theorem settledFields_append (fields rest : List (String × Json)) :
    settledFields (fields ++ rest) = settledFields fields ++ settledFields rest := by
  induction fields with
  | nil => rfl
  | cons f fields ih => rw [List.cons_append, settledFields, settledFields, ih, List.cons_append]

theorem unnest_settled_plain (h : subcollectionsField ∉ Keyed.keys fields) :
    unnest relation (settled (.obj fields)) = [(relation, [settled (.obj fields)])] := by
  rw [settled]
  refine unnest_plain ?_ relation
  rw [Keyed.mem_keys_ofPairs, keys_settledFields]
  exact h

theorem unnest_settled_nested (h : subcollectionsField ∉ Keyed.keys fields)
    (hgroups : (Keyed.keys groups).Nodup) :
    unnest relation (settled (.obj (fields ++ [(subcollectionsField, .obj groups)]))) =
      (relation, [settled (.obj fields)]) :: unnestGroups relation (settledFields groups) := by
  have hplain : subcollectionsField ∉ Keyed.keys (Keyed.ofPairs (settledFields fields)) := by
    rw [Keyed.mem_keys_ofPairs, keys_settledFields]
    exact h
  have hsettled : settled (.obj groups) = .obj (settledFields groups) := by
    rw [settled, Keyed.ofPairs_of_nodup (by rw [keys_settledFields]; exact hgroups)]
  rw [settled, settled, settledFields_append, settledFields, settledFields, Keyed.ofPairs_concat,
    hsettled, Keyed.set_of_not_mem hplain]
  exact unnest_nested hplain relation _

/-! Records of documents. -/

/-- The document has no field of the name under which nested documents are kept. -/
def StoredDocument.IsPlain (d : StoredDocument) : Prop :=
  ∀ e ∈ d.entries, e.1.fieldName ≠ .ok subcollectionsField

variable {d : StoredDocument} {linkage : Option Linkage} {entries : Document.Entries}

theorem fieldName_ne_of_mem_set {name value : String}
    (h : ∀ e ∈ entries, e.1.fieldName ≠ .ok subcollectionsField) (hname : name ≠ subcollectionsField) :
    ∀ e ∈ entries.set name (.text value), e.1.fieldName ≠ .ok subcollectionsField := by
  intro e he hfield
  rcases Document.Entries.key_of_mem_set he with ⟨f, hf, hkey⟩ | hkey
  · exact h f hf (hkey ▸ hfield)
  · rw [hkey] at hfield
    exact hname (Except.ok.inj hfield)

theorem fieldName_ne_of_mem_baseRecord (hd : d.IsPlain) (linkage : Option Linkage) :
    ∀ e ∈ baseRecord d linkage, e.1.fieldName ≠ .ok subcollectionsField := by
  have hidentity : ∀ name ∈ Document.identityFields, name ≠ subcollectionsField := by decide
  have hassigned : ∀ e ∈ (Document.assignIdentity d.entries d.id).2,
      e.1.fieldName ≠ .ok subcollectionsField := by
    unfold Document.assignIdentity
    split
    · rename_i name hname
      exact fieldName_ne_of_mem_set hd (hidentity name (List.mem_of_find?_eq_some hname))
    · exact hd
  cases linkage with
  | none => exact hassigned
  | some l =>
    refine fieldName_ne_of_mem_set (fieldName_ne_of_mem_set (fieldName_ne_of_mem_set hassigned ?_) ?_) ?_
    all_goals decide

theorem exists_entriesToJson_of_toJson {j : Json} (h : (Document.Value.map entries).toJson = .ok j) :
    ∃ fields, Document.Value.entriesToJson entries = .ok fields ∧ j = .obj fields := by
  rw [Document.Value.toJson] at h
  cases he : Document.Value.entriesToJson entries with
  | error e => simp [he, bind, Except.bind] at h
  | ok fields =>
    simp only [he, bind, Except.bind, pure, Except.pure] at h
    exact ⟨fields, rfl, (Except.ok.inj h).symm⟩

theorem toJson_map (h : Document.Value.entriesToJson entries = .ok fields) :
    (Document.Value.map entries).toJson = .ok (.obj fields) := by
  rw [Document.Value.toJson, h]
  rfl

theorem not_mem_keys_baseRecord (hd : d.IsPlain)
    (h : Document.Value.entriesToJson (baseRecord d linkage) = .ok fields) :
    subcollectionsField ∉ Keyed.keys fields := by
  intro hmem
  obtain ⟨e, he, hname⟩ := Document.Value.exists_fieldName_of_mem_keys h hmem
  exact fieldName_ne_of_mem_baseRecord hd linkage e he hname

/-- What comes of the record of a document without nested documents. -/
theorem unnest_baseRecord (hd : d.IsPlain) {j : Json}
    (h : (Document.Value.map (baseRecord d linkage)).toJson = .ok j) :
    unnest relation (settled j) = [(relation, [settled j])] := by
  obtain ⟨fields, hfields, rfl⟩ := exists_entriesToJson_of_toJson h
  exact unnest_settled_plain (not_mem_keys_baseRecord hd hfields)

/-- What comes of the record of a document that nested documents are put in. -/
theorem unnest_baseRecord_set (hd : d.IsPlain) {j : Json} {nested : Document.Entries}
    (h : (Document.Value.map (baseRecord d linkage)).toJson = .ok j)
    (hnested : Document.Value.entriesToJson nested = .ok groups) (hgroups : (Keyed.keys groups).Nodup) :
    ∃ j', (Document.Value.map ((baseRecord d linkage).set subcollectionsField (.map nested))).toJson =
        .ok j' ∧
      unnest relation (settled j') =
        (relation, [settled j]) :: unnestGroups relation (settledFields groups) := by
  obtain ⟨fields, hfields, rfl⟩ := exists_entriesToJson_of_toJson h
  have hnew : ∀ e ∈ baseRecord d linkage, e.1 ≠ .text subcollectionsField := by
    intro e he hkey
    refine fieldName_ne_of_mem_baseRecord hd linkage e he ?_
    rw [hkey]
    rfl
  rw [Document.Entries.set_of_not_mem hnew]
  refine ⟨_, toJson_map (Document.Value.entriesToJson_concat hfields (toJson_map hnested) _), ?_⟩
  exact unnest_settled_nested (not_mem_keys_baseRecord hd hfields) hgroups

end Export
end BackendMigration
