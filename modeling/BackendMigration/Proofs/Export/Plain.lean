import BackendMigration.Proofs.Document.Entries
import BackendMigration.Proofs.Export.Complete
import BackendMigration.Proofs.Json.Reader
import BackendMigration.Proofs.Relation.Listing

/-! Entries of documents that come back as they are when they are written as JSON and read. -/
namespace BackendMigration.Document

namespace Value

theorem set_ofJsonFields (name : String) (j : Json) (fields : List (String × Json)) :
    Entries.set name (ofJson j) (ofJsonFields fields) = ofJsonFields (Keyed.set name j fields) := by
  induction fields with
  | nil => rfl
  | cons f fs ih =>
    obtain ⟨k, x⟩ := f
    unfold Entries.set at ih ⊢
    rw [ofJsonFields, Entries.put, agrees_text, Keyed.set]
    by_cases hk : k = name
    · rw [if_pos (beq_iff_eq.2 hk), if_pos hk, ofJsonFields]
    · rw [if_neg (fun he => hk (beq_iff_eq.1 he)), if_neg hk, ofJsonFields, ih]

end Value

namespace Entries

open Value (ofJson ofJsonFields ofJsonItems)

/-- The entries are the fields of a JSON object without floats. -/
def ArePlain (entries : Entries) : Prop :=
  ∃ fields, entries = ofJsonFields fields ∧ (Json.obj fields).IsPlain

variable {entries : Entries} {j : Json}

theorem ArePlain.set (h : entries.ArePlain) (name : String) (hj : j.IsPlain) :
    (entries.set name (ofJson j)).ArePlain := by
  obtain ⟨fields, rfl, hkeys, hfields⟩ := h
  refine ⟨Keyed.set name j fields, Value.set_ofJsonFields name j fields, ?_, ?_⟩
  · exact Keyed.nodup_keys_set name j hkeys
  · rw [Json.fieldsPlain_iff] at hfields ⊢
    intro f hf
    rcases Keyed.mem_set hf with rfl | hf
    · exact hj
    · exact hfields f hf

/-- What is read of the JSON form of plain entries. -/
theorem ArePlain.exists_settled (h : entries.ArePlain) :
    ∃ j : Json, Value.map entries = ofJson j ∧ (Value.map entries).toJson = .ok j ∧ j.IsPlain := by
  obtain ⟨fields, rfl, hplain⟩ := h
  exact ⟨.obj fields, rfl, Value.toJson_ofJson (.obj fields), hplain⟩

theorem exists_items_of_arePlain {records : List Entries} (h : ∀ record ∈ records, record.ArePlain) :
    ∃ items, records.map Value.map = ofJsonItems items ∧ Json.ItemsPlain items := by
  induction records with
  | nil => exact ⟨[], rfl, trivial⟩
  | cons record rest ih =>
    obtain ⟨fields, hrecord, hplain⟩ := h record List.mem_cons_self
    obtain ⟨items, hitems, hrest⟩ := ih fun r hr => h r (List.mem_cons_of_mem record hr)
    refine ⟨.obj fields :: items, ?_, hplain, hrest⟩
    rw [List.map_cons, hitems, hrecord]
    rfl

/-- Lists of plain records under different names are plain. -/
theorem arePlain_groups {groups : List (String × List Entries)} (hnames : (groups.map (·.1)).Nodup)
    (h : ∀ g ∈ groups, ∀ record ∈ g.2, record.ArePlain) :
    ArePlain (groups.map fun g => (.text g.1, .list (g.2.map .map))) := by
  have hfields : ∃ fields : List (String × Json),
      groups.map (fun g => (Value.text g.1, Value.list (g.2.map .map))) = ofJsonFields fields ∧
        Keyed.keys fields = groups.map (·.1) ∧ Json.FieldsPlain fields := by
    clear hnames
    induction groups with
    | nil => exact ⟨[], rfl, rfl, trivial⟩
    | cons g rest ih =>
      obtain ⟨items, hitems, hplain⟩ := exists_items_of_arePlain (h g List.mem_cons_self)
      obtain ⟨fields, hrest, hkeys, hall⟩ := ih fun g' hg => h g' (List.mem_cons_of_mem g hg)
      refine ⟨(g.1, .arr items) :: fields, ?_, ?_, hplain, hall⟩
      · rw [List.map_cons, hrest, hitems]
        rfl
      · rw [Keyed.keys_cons, hkeys, List.map_cons]
  obtain ⟨fields, he, hkeys, hplain⟩ := hfields
  refine ⟨fields, he, ?_, hplain⟩
  rwa [hkeys]

end Entries
end BackendMigration.Document

/-! Exports of stores whose documents are plain: each record is plain too, and none is refused. -/
namespace BackendMigration.Export

open BackendMigration.Relation (Log)

/-- The fields of every document are JSON without floats. -/
def Store.HoldsPlain (store : Store) : Prop :=
  ∀ path, ∀ d ∈ store.documents path, d.entries.ArePlain

/-- Documents are plain if those of all collections are. -/
theorem Store.holdsPlain_of_collections {store : Store}
    (h : ∀ c ∈ store.collections, ∀ d ∈ c.2, d.entries.ArePlain) : store.HoldsPlain := by
  intro path d hd
  unfold documents Keyed.get? at hd
  cases hfind : store.collections.find? (·.1 == path) with
  | none =>
    rw [hfind] at hd
    exact absurd hd List.not_mem_nil
  | some c =>
    rw [hfind] at hd
    exact h c (List.mem_of_find?_eq_some hfind) d hd

/-- A record is plain if the fields of its document are. -/
theorem arePlain_baseRecord {d : StoredDocument} (h : d.entries.ArePlain) (linkage : Option Linkage) :
    (baseRecord d linkage).ArePlain := by
  have htext : ∀ s : String, (Json.str s).IsPlain := fun _ => trivial
  have hassigned : (Document.assignIdentity d.entries d.id).2.ArePlain := by
    unfold Document.assignIdentity
    split
    · exact h.set _ (htext d.id)
    · exact h
  cases linkage with
  | none => exact hassigned
  | some l =>
    have hparent := hassigned.set "parent_collection" (htext l.relation)
    have hparentId := hparent.set "parent_document_id" (htext l.documentId)
    exact hparentId.set "collection_path" (htext l.path)

/-- A record stays plain when plain records are nested in it. -/
theorem arePlain_nested {ctx : Context} {v : Visit} {names : List String} {entries : Document.Entries}
    (hrecord : v.record.ArePlain) (hnames : names.Nodup)
    (h : Groups ctx (fun _ record => record.ArePlain) v names entries) :
    (v.record.set subcollectionsField (.map entries)).ArePlain := by
  obtain ⟨groups, rfl, hsublist, hall⟩ := h
  have hplain := Document.Entries.arePlain_groups (hnames.sublist hsublist) fun g hg record hr =>
    (hall g hg record hr).elim fun _ hd => hd.2
  obtain ⟨j, hj, -, hjplain⟩ := hplain.exists_settled
  rw [hj]
  exact hrecord.set _ hjplain

/-! The relations of a result. -/

/-- Relations have names, and no two have the same. -/
structure Result.Named (r : Result) : Prop where
  named : "" ∉ Keyed.keys r.relations
  nodup : (Keyed.keys r.relations).Nodup

theorem Result.Named.ensure {r : Result} (h : r.Named) {name : String} (hname : name ≠ "")
    (depth : Int) (parent : Option String) : (r.ensure name depth parent).Named := by
  constructor
  · rw [Result.mem_keys_ensure, not_or]
    exact ⟨h.named, fun he => hname he.symm⟩
  · unfold Result.ensure
    split
    · exact h.nodup
    · exact Keyed.nodup_keys_set name _ h.nodup

theorem Result.Named.addCount {r : Result} (h : r.Named) (name : String) (n : Int) :
    (r.addCount name n).Named := by
  have hkeys := Result.keys_addCount r name n
  constructor
  · rw [hkeys]
    exact h.named
  · rw [hkeys]
    exact h.nodup

theorem nestedRelation_ne_empty (parent name : String) : nestedRelation parent name ≠ "" := by
  apply BackendMigration.Relation.sanitize_ne_empty
  intro h
  have hlength := congrArg String.length h
  have hunderscore : "_".length = 1 := rfl
  have hempty : "".length = 0 := rfl
  rw [String.length_append, String.length_append] at hlength
  omega

/-! What the steps of an export without hooks ensure. -/

/-- The writes so far are accounted for: each was of a plain record to a relation that the result
tells of. -/
structure PlainAccounts (session : Session) (attempts : List (String × Document.Value)) (s : State) :
    Prop where
  accounts : Accounts session attempts s
  refused : ∀ a ∈ (Log.run session.writer session.files attempts).refused,
    a.1 ∈ Keyed.keys s.result.relations
  plain : ∀ a ∈ attempts, ∃ entries : Document.Entries, a.2 = .map entries ∧ entries.ArePlain
  named : s.result.Named

variable {ctx : Context} {session : Session} {attempts : List (String × Document.Value)} {s s' : State}
  {known : List String} {relation : String}

theorem PlainAccounts.of_eq (h : PlainAccounts session attempts s) (hw : s'.writer = s.writer)
    (hf : s'.files = s.files) (hr : s'.result.relations = s.result.relations) :
    PlainAccounts session attempts s' := by
  refine ⟨h.accounts.of_eq hw hf hr, ?_, h.plain, ?_, ?_⟩
  · rw [hr]
    exact h.refused
  · rw [hr]
    exact h.named.named
  · rw [hr]
    exact h.named.nodup

theorem PlainAccounts.ensure (h : PlainAccounts session attempts s)
    (hr : BackendMigration.Relation.sanitize relation = relation) (hne : relation ≠ "") (depth : Int)
    (parent : Option String) :
    PlainAccounts session attempts { s with result := s.result.ensure relation depth parent } := by
  refine ⟨h.accounts.ensure hr depth parent, fun a ha => ?_, h.plain, h.named.ensure hne depth parent⟩
  exact Result.mem_keys_ensure.2 (.inl (h.refused a ha))

/-- A relation that the result tells of stays in it when a record is tried. -/
theorem keys_storeRecord (hr : relation ∈ Keyed.keys s.result.relations) (depth : Int)
    (value : Document.Value) :
    Keyed.keys ((storeRecord relation depth value).run.run s).2.result.relations =
      Keyed.keys s.result.relations := by
  rw [Step.run_storeRecord]
  split
  · dsimp only
    rw [Result.keys_addCount, Result.ensure, if_pos ((Keyed.has_iff _ _).2 hr)]
  · rfl

/-- A plain record that is tried leaves the writes accounted for. -/
theorem PlainAccounts.storeRecord (h : PlainAccounts session attempts s)
    (hr : relation ∈ Keyed.keys s.result.relations) (depth : Int) {record : Document.Entries}
    (hrecord : record.ArePlain) : PlainAccounts session (attempts ++ [(relation, .map record)])
      ((storeRecord relation depth (.map record)).run.run s).2 := by
  have hkeys := keys_storeRecord hr depth (.map record)
  have hsanitized : BackendMigration.Relation.sanitize relation = relation := by
    obtain ⟨e, he, rfl⟩ := List.mem_map.1 hr
    exact (h.accounts.entries e he).2.1
  refine ⟨h.accounts.storeRecord hsanitized depth _, fun a ha => ?_, fun a ha => ?_, ?_, ?_⟩
  · rw [hkeys]
    rw [Log.run_concat] at ha
    -- Also a record that is refused may have opened the file, so its relation has to be known.
    rcases Log.refused_attempt ha with hsame | ha
    · rw [hsame]
      exact hr
    · exact h.refused a ha
  · rcases List.mem_append.1 ha with ha | ha
    · exact h.plain a ha
    · rw [List.mem_singleton.1 ha]
      exact ⟨record, rfl, hrecord⟩
  · rw [hkeys]
    exact h.named.named
  · rw [hkeys]
    exact h.named.nodup

/-- The writes so far are accounted for, and the result tells of some relations. -/
def PlainlyAccounted (session : Session) (known : List String) (s : State) : Prop :=
  (∃ attempts, PlainAccounts session attempts s) ∧ ∀ r ∈ known, r ∈ Keyed.keys s.result.relations

/-- Steps that change neither the files nor the relations. -/
theorem keeps_plainlyAccounted {α : Type} {m : Step α}
    (h : ∀ s, (m.run.run s).2.writer = s.writer ∧ (m.run.run s).2.files = s.files ∧
      (m.run.run s).2.result.relations = s.result.relations) :
    Step.Keeps (PlainlyAccounted session known) m := by
  rintro s ⟨⟨attempts, hs⟩, hknown⟩
  obtain ⟨hw, hf, hr⟩ := h s
  constructor
  · exact ⟨attempts, hs.of_eq hw hf hr⟩
  · rw [hr]
    exact hknown

theorem keeps_writeRecord_plain (hhooks : ctx.hooks = []) (hr : relation ∈ known)
    {record : Document.Entries} (hrecord : record.ArePlain) (key : String) (depth : Nat) :
    Step.Keeps (PlainlyAccounted session known) (writeRecord ctx relation record key depth) := by
  rintro s ⟨⟨attempts, hs⟩, hknown⟩
  rw [Step.run_writeRecord hhooks]
  split
  · exact ⟨⟨attempts, hs.of_eq rfl rfl rfl⟩, hknown⟩
  · have hmet : PlainAccounts session attempts (s.met relation key) := hs.of_eq rfl rfl rfl
    have hrelation : relation ∈ Keyed.keys (s.met relation key).result.relations := hknown _ hr
    rw [Step.snd_run_bind_pure]
    constructor
    · exact ⟨_, hmet.storeRecord hrelation depth hrecord⟩
    · rw [keys_storeRecord hrelation]
      exact hknown

/-- An export of plain documents keeps its writes accounted for. -/
theorem sustained_plainlyAccounted (hhooks : ctx.hooks = []) (hstore : ctx.store.HoldsPlain) :
    Sustained ctx (PlainlyAccounted session) (PlainlyAccounted session [])
      (fun _ record => record.ArePlain) := by
  have hweak : ∀ known s, PlainlyAccounted session known s → PlainlyAccounted session [] s :=
    fun _ s hs => ⟨hs.1, fun r hr => absurd hr List.not_mem_nil⟩
  constructor
  case forget =>
    rintro r known s ⟨hs, hknown⟩
    exact ⟨hs, fun r' hr => hknown r' (List.mem_cons_of_mem r hr)⟩
  case asked =>
    exact fun known => (keeps_plainlyAccounted fun _ => ⟨rfl, rfl, rfl⟩).ensures (hweak known)
  case cancelled =>
    exact fun known => (keeps_plainlyAccounted fun _ => ⟨rfl, rfl, rfl⟩).ensures (hweak known)
  case requested =>
    exact fun known _ => (keeps_plainlyAccounted fun _ => ⟨rfl, rfl, rfl⟩).ensures (hweak known)
  case noted =>
    exact fun known _ _ => (keeps_plainlyAccounted fun _ => ⟨rfl, rfl, rfl⟩).ensures (hweak known)
  case opened =>
    rintro known v name s ⟨⟨attempts, hs⟩, hknown⟩
    constructor
    · rintro a t hrun
      cases hrun
      have hensured := hs.ensure (Steady.sanitize_nestedRelation v.relation name)
        (nestedRelation_ne_empty v.relation name) (v.depth + 1) (some v.relation)
      refine ⟨⟨⟨attempts, hensured⟩, fun r hr => Result.mem_keys_ensure.2 ?_⟩, trivial⟩
      exact (List.mem_cons.1 hr).symm.imp_left (hknown r)
    · intro e t hrun
      cases hrun
  case bare => exact fun v hv => arePlain_baseRecord (hstore _ _ hv) v.linkage
  case nested =>
    exact fun v _ _ hv _ hnames hgroups =>
      arePlain_nested (arePlain_baseRecord (hstore _ _ hv) v.linkage) hnames hgroups
  case written =>
    exact fun known _ _ _ hr hrecord =>
      (keeps_writeRecord_plain hhooks hr hrecord _ _).ensures (hweak known)

theorem plainAccounts_initial {settings : Settings} (hcollection : settings.collection ≠ "")
    (period : Time.Period) (session : Session) :
    PlainAccounts session [] (.initial settings period session) := by
  have hnone : ∀ a ∈ (Log.run session.writer session.files []).refused,
      a.1 ∈ Keyed.keys (State.initial settings period session).result.relations :=
    fun a ha => absurd ha List.not_mem_nil
  have hbegun : Result.Named { collection := settings.collection, startedAt := some period.start } :=
    ⟨List.not_mem_nil, List.nodup_nil⟩
  exact ⟨accounts_initial settings period session, hnone, fun a ha => absurd ha List.not_mem_nil,
    hbegun.ensure (BackendMigration.Relation.sanitize_ne_empty hcollection) 0 none⟩

/-- However an export of plain documents ends, its writes are accounted for. -/
theorem exists_plainAccounts {e : Exporter} {settings : Settings}
    (hcollection : settings.collection ≠ "") (hhooks : e.hooks = []) (hstore : e.store.HoldsPlain)
    (period : Time.Period) (session : Session) :
    ∃ attempts, PlainAccounts session attempts (e.walked settings period session) := by
  have hsustained : Sustained ⟨e.store, e.hooks, settings, period⟩ (PlainlyAccounted session) _ _ :=
    sustained_plainlyAccounted hhooks hstore
  have hroot : ∀ r ∈ [BackendMigration.Relation.sanitize settings.collection],
      r ∈ Keyed.keys (State.initial settings period session).result.relations :=
    List.forall_mem_singleton.2 List.mem_cons_self
  obtain ⟨haccounted, -⟩ := hsustained.exportCollection.end_of
    (fun s hs => ⟨hs.1, fun r hr => absurd hr List.not_mem_nil⟩)
    ⟨⟨[], plainAccounts_initial hcollection period session⟩, hroot⟩
  exact haccounted

end BackendMigration.Export
