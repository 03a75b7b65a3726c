import BackendMigration.Proofs.Document.Identity
import BackendMigration.Proofs.Export.Complete
import BackendMigration.Proofs.Export.Record

/-! What becomes of the data of documents in the records of an export. -/
namespace BackendMigration.Export

open BackendMigration.Relation (Log readBack sanitize)

/-- The fields of a document's record that do not come from its data: the one that took the id, and
those that tell where the document is nested. -/
def Visit.stamped (v : Visit) : List String :=
  (identityField? v.document.entries).toList ++ if v.linkage.isSome then linkageFields else []

/-- A record has the data of a document in all but the stamped fields. In nest mode the field of
nested documents is taken too, by records each of which has the data of a nested document. -/
inductive Carries (ctx : Context) : Visit → Document.Entries → Prop
  | bare {v : Visit} {record : Document.Entries}
      (stored : v.document ∈ ctx.store.documents v.collectionPath)
      (data : ∀ name, name ∉ v.stamped → record.get? name = v.document.entries.get? name) :
      Carries ctx v record
  | nesting {v : Visit} {record : Document.Entries} (groups : List (String × List Document.Entries))
      (document : String → Document.Entries → StoredDocument) (mode : ctx.settings.mode = .nest)
      (stored : v.document ∈ ctx.store.documents v.collectionPath)
      (data : ∀ name, name ∉ v.stamped → name ≠ subcollectionsField →
        record.get? name = v.document.entries.get? name)
      (nested : record.get? subcollectionsField =
        some (.map (groups.map fun g => (.text g.1, .list (g.2.map .map)))))
      (below : ∀ g ∈ groups, ∀ r ∈ g.2, Carries ctx (v.child g.1 (document g.1 r)) r) :
      Carries ctx v record

section

variable {ctx : Context} {session : Session} {s s' : State} {v : Visit}

theorem Visit.get?_record_of_not_stamped {name : String} (h : name ∉ v.stamped) :
    v.record.get? name = v.document.entries.get? name := by
  simp only [stamped, List.mem_append, not_or, Option.mem_toList] at h
  refine (records_baseRecord v.document v.linkage).data name h.1 ?_
  cases hl : v.linkage with
  | none => exact .inl rfl
  | some l =>
    right
    simpa [hl] using h.2

theorem carries_bare (hv : v.document ∈ ctx.store.documents v.collectionPath) :
    Carries ctx v v.record :=
  .bare hv fun _ => Visit.get?_record_of_not_stamped

theorem carries_nested {names : List String} {entries : Document.Entries}
    (hv : v.document ∈ ctx.store.documents v.collectionPath) (hmode : ctx.settings.mode = .nest)
    (h : Groups ctx (Carries ctx) v names entries) :
    Carries ctx v (v.record.set subcollectionsField (.map entries)) := by
  obtain ⟨groups, rfl, -, hall⟩ := h
  have hdocument : ∀ (name : String) (r : Document.Entries), ∃ d : StoredDocument,
      (∃ d', Carries ctx (v.child name d') r) → Carries ctx (v.child name d) r := by
    intro name r
    by_cases hr : ∃ d', Carries ctx (v.child name d') r
    · exact ⟨hr.choose, fun _ => hr.choose_spec⟩
    · exact ⟨v.document, fun hr' => absurd hr' hr⟩
  choose document hcarries using hdocument
  refine .nesting groups document hmode hv (fun name hn hne => ?_) ?_ fun g hg r hr => ?_
  · rw [Document.Entries.get?_set, if_neg hne]
    exact Visit.get?_record_of_not_stamped hn
  · rw [Document.Entries.get?_set, if_pos rfl]
  · obtain ⟨d, -, hd⟩ := hall g hg r hr
    exact hcarries g.1 r ⟨d, hd⟩

/-- The writes so far are accounted for, and each was of a record with the data of a document. -/
structure CarryingAccounts (ctx : Context) (session : Session)
    (attempts : List (String × Document.Value)) (s : State) : Prop where
  accounts : Accounts session attempts s
  carry : ∀ a ∈ attempts, ∃ v record, a = (v.relation, .map record) ∧ Carries ctx v record

/-- So far only records with the data of documents were written. -/
def IsCarried (ctx : Context) (session : Session) (s : State) : Prop :=
  ∃ attempts, CarryingAccounts ctx session attempts s

theorem IsCarried.of_eq (h : IsCarried ctx session s) (hw : s'.writer = s.writer)
    (hf : s'.files = s.files) (hr : s'.result.relations = s.result.relations) :
    IsCarried ctx session s' := by
  obtain ⟨attempts, h⟩ := h
  exact ⟨attempts, h.accounts.of_eq hw hf hr, h.carry⟩

theorem keeps_writeRecord_carried (hhooks : ctx.hooks = []) (hr : sanitize v.relation = v.relation)
    {record : Document.Entries} (hrecord : Carries ctx v record) (key : String) :
    Step.Keeps (IsCarried ctx session) (writeRecord ctx v.relation record key v.depth) := by
  intro s hs
  rw [Step.run_writeRecord hhooks]
  split
  · exact hs.of_eq rfl rfl rfl
  · obtain ⟨attempts, haccounts, hcarry⟩ :=
      (hs.of_eq rfl rfl rfl : IsCarried ctx session (s.met v.relation key))
    rw [Step.snd_run_bind_pure]
    refine ⟨_, haccounts.storeRecord hr v.depth (.map record), fun a ha => ?_⟩
    rcases List.mem_append.1 ha with ha | ha
    · exact hcarry a ha
    · exact ⟨v, record, List.mem_singleton.1 ha, hrecord⟩

theorem sustained_isCarried (hhooks : ctx.hooks = []) :
    Sustained ctx (WithSanitized (IsCarried ctx session)) (IsCarried ctx session) (Carries ctx) where
  forget := fun _ _ _ hs => hs.forget
  asked := fun known => Step.Keeps.withSanitized known fun _ hs => hs.of_eq rfl rfl rfl
  cancelled := fun known => Step.Keeps.withSanitized known fun _ hs => hs.of_eq rfl rfl rfl
  requested := fun known _ => Step.Keeps.withSanitized known fun _ hs => hs.of_eq rfl rfl rfl
  noted := fun known _ _ => Step.Keeps.withSanitized known fun _ hs => hs.of_eq rfl rfl rfl
  opened := fun known v name => Step.Keeps.opens known
    (fun _ ⟨attempts, hs⟩ => ⟨attempts, hs.accounts.ensure
      (BackendMigration.Relation.sanitize_sanitize _) _ _, hs.carry⟩) v.relation name
  bare := fun _ hv => carries_bare hv
  nested := fun _ _ _ hv hmode _ hgroups => carries_nested hv hmode hgroups
  written := fun known _ _ _ hr hrecord s hs =>
    (keeps_writeRecord_carried hhooks (hs.1 _ hr) hrecord _).withSanitized known s hs

end

/-- Every record that an export hands to its writer has a property, and where the files are closed those
of relations hold such records only. -/
def WritesOnly (P : Visit → Document.Entries → Prop) (e : Exporter) (order : Order)
    (settings : Settings) (period : Time.Period) (session : Session) : Prop :=
  ∃ attempts, Accounts session attempts (e.walked settings period session) ∧
    (∀ a ∈ attempts, ∃ v record, a = (v.relation, .map record) ∧ P v record) ∧
    ((e.export order period session).IsClosed → ∃ relations,
      (∀ result, (e.export order period session).result = .ok result →
        relations = Keyed.keys result.relations) ∧
      ∀ r ∈ relations, ∃ values : List Document.Value,
        Relation.read (e.export order period session).session.files (session.writer.path r) =
          .ok (values.map readBack) ∧
        ∀ value ∈ values, ∃ v record, (r, value) = (v.relation, .map record) ∧ P v record)

/-- Without hooks every record that is written carries the data of a document. -/
theorem writesOnly_of_carries {e : Exporter} {order : Order} {settings : Settings}
    (period : Time.Period) (session : Session) (ho : order.settings = .ok settings)
    (hhooks : e.hooks = []) {P : Visit → Document.Entries → Prop}
    (hP : ∀ v record, Carries ⟨e.store, e.hooks, settings, period⟩ v record → P v record) :
    WritesOnly P e order settings period session := by
  let ctx : Context := ⟨e.store, e.hooks, settings, period⟩
  obtain ⟨attempts, haccounts, hcarry⟩ := (@sustained_isCarried ctx session hhooks).keeps _
    ⟨[], accounts_initial settings period session, fun _ ha => absurd ha List.not_mem_nil⟩
  have hall : ∀ a ∈ attempts, ∃ v record, a = (v.relation, .map record) ∧ P v record := by
    intro a ha
    obtain ⟨v, record, hrecord, hcarries⟩ := hcarry a ha
    exact ⟨v, record, hrecord, hP v record hcarries⟩
  refine ⟨attempts, haccounts, hall, fun hclosed => ?_⟩
  obtain ⟨hcomplete, hresult⟩ := exists_complete_of_isClosed (e := e) ho hclosed haccounts
  refine ⟨_, fun result hr => (hresult result hr).1.symm, fun r hr => ?_⟩
  obtain ⟨-, base, place, -, -, hfinished⟩ := hcomplete
  refine ⟨_, hfinished.read r hr, fun value hvalue => ?_⟩
  obtain ⟨a, ha, rfl⟩ := List.mem_map.1 hvalue
  obtain ⟨hwritten, hrelation⟩ := List.mem_filter.1 ha
  rw [← eq_of_beq hrelation]
  exact hall a (Log.mem_of_mem_written hwritten)

/-- Every record that an export hands to its writer has the data of a document of the store, and where
the files are closed those of relations hold such records only. -/
def CarriesData (e : Exporter) (order : Order) (settings : Settings) (period : Time.Period)
    (session : Session) : Prop :=
  ∃ attempts, Accounts session attempts (e.walked settings period session) ∧
    (∀ a ∈ attempts, ∃ v record, a = (v.relation, .map record) ∧
      Carries ⟨e.store, e.hooks, settings, period⟩ v record) ∧
    ((e.export order period session).IsClosed → ∃ relations,
      (∀ result, (e.export order period session).result = .ok result →
        relations = Keyed.keys result.relations) ∧
      ∀ r ∈ relations, ∃ values : List Document.Value,
        Relation.read (e.export order period session).session.files (session.writer.path r) =
          .ok (values.map readBack) ∧
        ∀ value ∈ values, ∃ v record, (r, value) = (v.relation, .map record) ∧
          Carries ⟨e.store, e.hooks, settings, period⟩ v record)

/-- Without hooks the data of a document is in its record, but for the field that took the id, which had
no value, the fields that tell where the document is nested, and in nest mode the field that holds nested
documents. -/
theorem export_carries_data {e : Exporter} {order : Order} {settings : Settings}
    (period : Time.Period) (session : Session) (ho : order.settings = .ok settings)
    (hhooks : e.hooks = []) : CarriesData e order settings period session :=
  writesOnly_of_carries period session ho hhooks fun _ _ h => h

namespace TakenNames

/-- A document with a field named like that of nested documents, and in it one with a field named like
one that tells where it is nested. -/
def store : Store where
  collections :=
    [("u", [⟨"a", [(.text subcollectionsField, .text "own")]⟩]),
      ("u/a/o", [⟨"x", [(.text "parent_collection", .text "own")]⟩])]
  distinct := by decide

def order : Order :=
  { collection := "u", includeSubcollections := true, maxDepth := 1, mode := .text Mode.nest.name }

def period : Time.Period := ⟨⟨⟨2024, 5, 1⟩, {}, some 0⟩, ⟨⟨2024, 5, 1⟩, {}, some 0⟩⟩

def session : Session := ⟨⟨⟨false, []⟩, none, [], false⟩, .empty, .never⟩

theorem carries_data :
    ((Exporter.mk store []).export order period session).IsClosed ∧
      CarriesData ⟨store, []⟩ order ⟨"u", 1000, 0, true, 1, 100, .nest, by decide⟩ period session :=
  ⟨by decide +kernel, export_carries_data period session rfl rfl⟩

/-- The nested documents take the place of what the document has under their name, and in the nested one
the name of the collection takes that of what it has. -/
theorem lose_data :
    (store.documents "u").map (·.entries.get? subcollectionsField) = [some (.text "own")] ∧
    (store.documents "u/a/o").map (·.entries.get? "parent_collection") = [some (.text "own")] ∧
    (Relation.read ((Exporter.mk store []).export order period session).session.files
      (session.writer.path "u")).toOption = some [.obj
        [(subcollectionsField, .obj [("o", .arr [.obj [("parent_collection", .str "u"),
            ("firestore_id", .str "x"), ("parent_document_id", .str "a"),
            ("collection_path", .str "u/a/o")]])]), ("firestore_id", .str "a")]] :=
  ⟨rfl, rfl, by decide +kernel⟩

end TakenNames
end BackendMigration.Export

/-! What the records of an export have under the names that the ids of documents are stored under. -/
namespace BackendMigration.Export

open Document (IsTaken Stores assignIdentity firstAbsent? identityFields)

/-- A record has the values of a document under each of the names but the one that took the id, which is
none of those that are taken. -/
structure KeepsOwn (d : StoredDocument) (record : Document.Entries) : Prop where
  taken : ∀ name ∈ identityFields, IsTaken d.entries name →
    record.get? name = d.entries.get? name
  others : ∀ name ∈ identityFields, identityField? d.entries ≠ some name →
    record.get? name = d.entries.get? name

/-- A record keeps the values of its document, and each record nested in it those of its own. -/
inductive KeepsNames : Visit → Document.Entries → Prop
  | bare {v : Visit} {record : Document.Entries} (own : KeepsOwn v.document record) :
      KeepsNames v record
  | nesting {v : Visit} {record : Document.Entries} (groups : List (String × List Document.Entries))
      (document : String → Document.Entries → StoredDocument) (own : KeepsOwn v.document record)
      (nested : record.get? subcollectionsField =
        some (.map (groups.map fun g => (.text g.1, .list (g.2.map .map)))))
      (below : ∀ g ∈ groups, ∀ r ∈ g.2, KeepsNames (v.child g.1 (document g.1 r)) r) :
      KeepsNames v record

variable {ctx : Context} {v : Visit} {record : Document.Entries}

theorem identityField?_ne_of_isTaken {entries : Document.Entries} {name : String}
    (h : IsTaken entries name) : identityField? entries ≠ some name := by
  intro hfield
  obtain ⟨_, _, _, _, hfree⟩ := Document.find?_isFree_eq_some_iff.1 hfield
  exact hfree h

theorem not_mem_stamped {name : String} (hname : name ∈ identityFields)
    (hfield : identityField? v.document.entries ≠ some name) : name ∉ v.stamped := by
  have hlinkage : ∀ name ∈ identityFields, name ∉ linkageFields := by decide
  have hnot := hlinkage name hname
  simp only [Visit.stamped, List.mem_append, Option.mem_toList, not_or]
  refine ⟨hfield, ?_⟩
  split
  · exact hnot
  · exact List.not_mem_nil

theorem keepsOwn_of_data (data : ∀ name, name ∉ v.stamped → name ≠ subcollectionsField →
    record.get? name = v.document.entries.get? name) : KeepsOwn v.document record := by
  have hnested : ∀ name ∈ identityFields, name ≠ subcollectionsField := by decide
  have others (name : String) (hname : name ∈ identityFields)
      (hfield : identityField? v.document.entries ≠ some name) :
      record.get? name = v.document.entries.get? name :=
    data name (not_mem_stamped hname hfield) (hnested name hname)
  exact ⟨fun name hname htaken => others name hname (identityField?_ne_of_isTaken htaken), others⟩

theorem Carries.keepsNames (h : Carries ctx v record) : KeepsNames v record := by
  induction h with
  | bare _ data => exact .bare (keepsOwn_of_data fun name hname _ => data name hname)
  | nesting groups document _ _ data nested _ ih =>
    exact .nesting groups document (keepsOwn_of_data data) nested ih

namespace EmptyNames

open TakenNames (order period session)

/-- A document with null under the first of the names, and in it one with two empty values and one that
is not. -/
def store : Store where
  collections :=
    [("u", [⟨"a", [(.text "firestore_id", .null)]⟩]),
      ("u/a/o", [⟨"x", [(.text "firestore_id", .text "own"), (.text "firestoreid", .int 0),
        (.text "original_id", .text "")]⟩])]
  distinct := by decide

end EmptyNames
end BackendMigration.Export
