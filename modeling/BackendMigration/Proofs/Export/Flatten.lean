import BackendMigration.Proofs.Export.Enumeration
import BackendMigration.Proofs.Export.Outcome
import BackendMigration.Proofs.Export.Walk

/-! An export with relations for nested documents writes the documents of its enumeration. -/
namespace BackendMigration.Export

open File.Tree (jsonFile Filled)
open BackendMigration.Relation (arrayText Writable)
open Text (NoHalves)

/-- The relation of the exported collection, and one for each collection nested in a document that
is kept and not too deep. -/
def relationNames (store : Store) (s : Settings) : List String :=
  Relation.sanitize s.collection :: ((enumeration store s).filter (·.depth < levels s)).flatMap
    fun v => (v.nested store).map (nestedRelation v.relation)

/-- Documents know their paths, can be written as records with a given indent, and no request to
the store fails. -/
structure Store.Plain (store : Store) (indent : Option Nat) : Prop where
  attached : store.pathless = false
  fetches : store.failingFetches = []
  listings : store.failingListings = []
  paths : ∀ c ∈ store.collections, NoHalves c.1.toList
  ids : ∀ c ∈ store.collections, ∀ d ∈ c.2, '/' ∉ d.id.toList ∧ NoHalves d.id.toList
  data : ∀ c ∈ store.collections, ∀ d ∈ c.2, Writable indent (.map d.entries)

/-- What comes of an export into a directory: each relation has a file with the records of its
documents in the order of the enumeration, and nothing else is written. -/
structure Flattened (store : Store) (s : Settings) (writer : Relation.Writer) (base : File.Tree)
    (o : Outcome) : Prop where
  completed : ∃ result, o.result = .ok result ∧ result.errors = [] ∧
    ∀ r, r ∈ Keyed.keys result.relations ↔ r ∈ relationNames store s
  written : ∀ r ∈ relationNames store s, ∃ texts,
    ((enumeration store s).filter (·.relation == r)).map
      (fun v => Relation.Writer.recordText writer.indent (.map v.record)) = texts.map .ok ∧
    o.session.files.read (writer.path r) = .ok (String.ofList (arrayText texts)).toUTF8
  unwritten : ∀ p, (∀ r ∈ relationNames store s, base.resolve (writer.path r) ≠ .ok p) →
    o.session.files.node? p = base.node? p
  listed : o.requests.filterMap Request.listedPath? =
    ((enumeration store s).filter (·.depth < levels s)).map Visit.path
  records : ∀ v ∈ enumeration store s, Records v.record v.document v.linkage
  parents : ∀ v ∈ enumeration store s,
    (∃ d ∈ store.documents s.collection, v = Visit.root s.collection d) ∨
      ∃ p ∈ enumeration store s, p.depth < levels s ∧ v.NestedIn store p

variable {store : Store} {settings : Settings} {indent : Option Nat} {v : Visit} {r : String}

namespace Store

namespace Plain

theorem plainIds (h : store.Plain indent) : store.PlainIds := by
  intro path d hd
  obtain ⟨c, hc, hd⟩ := exists_of_mem_documents hd
  exact (h.ids c hc d hd).1

theorem noHalves_id (h : store.Plain indent) {path : String} {d : StoredDocument}
    (hd : d ∈ store.documents path) : NoHalves d.id.toList := by
  obtain ⟨c, hc, hd⟩ := exists_of_mem_documents hd
  exact (h.ids c hc d hd).2

theorem writable (h : store.Plain indent) {path : String} {d : StoredDocument}
    (hd : d ∈ store.documents path) : Writable indent (.map d.entries) := by
  obtain ⟨c, hc, hd⟩ := exists_of_mem_documents hd
  exact h.data c hc d hd

/-- The path of a nested collection is one of the store. -/
theorem noHalves_path (h : store.Plain indent) {name : String} (hn : name ∈ v.nested store) :
    NoHalves (v.path ++ "/" ++ name).toList := by
  obtain ⟨path, hp, hname⟩ := List.mem_filterMap.1 hn
  obtain ⟨c, hc, rfl⟩ := List.mem_map.1 hp
  have hpath : (v.path ++ "/" ++ name).toList = c.1.toList := by
    rw [nestedName?_eq_some hname]
    simp
  rw [hpath]
  exact h.paths c hc

end Plain
end Store

/-! Relations. -/

theorem mem_relationNames : r ∈ relationNames store settings ↔
    r = Relation.sanitize settings.collection ∨ ∃ v ∈ enumeration store settings,
      v.depth < levels settings ∧ ∃ name ∈ v.nested store, r = nestedRelation v.relation name := by
  simp only [relationNames, List.mem_cons, List.mem_flatMap, List.mem_filter, List.mem_map,
    decide_eq_true_eq, and_assoc, @eq_comm _ _ r]

theorem exists_sanitize_of_mem_relationNames (h : r ∈ relationNames store settings) :
    ∃ name, r = Relation.sanitize name := by
  rcases mem_relationNames.1 h with rfl | ⟨v, -, -, name, -, rfl⟩
  · exact ⟨_, rfl⟩
  · exact ⟨_, rfl⟩

theorem sanitize_of_mem_relationNames (h : r ∈ relationNames store settings) :
    Relation.sanitize r = r := by
  obtain ⟨name, rfl⟩ := exists_sanitize_of_mem_relationNames h
  exact Relation.sanitize_sanitize name

theorem noHalves_of_mem_relationNames (h : r ∈ relationNames store settings) :
    NoHalves r.toList := by
  obtain ⟨name, rfl⟩ := exists_sanitize_of_mem_relationNames h
  exact noHalves_sanitize name

theorem receives_of_mem_relationNames {w : Relation.Writer} {base : File.Tree} {place : File.Path}
    (hplace : base.resolve w.directory = .ok place) (hr : r ∈ relationNames store settings)
    (h : ∃ t, base.write (w.path r) .empty = .ok t) :
    base.Receives (w.path r) (jsonFile place r) := by
  obtain ⟨t, ht⟩ := h
  obtain ⟨q, hq⟩ := File.Tree.receives_of_write ht
  have hfile := Relation.eq_jsonFile_of_receives hplace
    (Relation.slash_not_mem_of_sanitize (sanitize_of_mem_relationNames hr)) hq
  rwa [hfile] at hq

theorem relation_mem_relationNames (hstore : store.PlainIds)
    (h : v ∈ enumeration store settings) : v.relation ∈ relationNames store settings := by
  rw [mem_relationNames]
  rcases exists_parent_of_mem_enumeration hstore h with ⟨d, -, rfl⟩ |
    ⟨p, hp, hdepth, name, hname, d, -, rfl⟩
  · exact .inl rfl
  · exact .inr ⟨p, hp, hdepth, name, hname, rfl⟩

theorem noHalves_id_of_mem_enumeration (hstore : store.Plain indent)
    (h : v ∈ enumeration store settings) : NoHalves v.document.id.toList := by
  rcases exists_parent_of_mem_enumeration hstore.plainIds h with ⟨d, hd, rfl⟩ |
    ⟨p, -, -, name, -, d, hd, rfl⟩
  · exact hstore.noHalves_id hd
  · exact hstore.noHalves_id hd

theorem writable_of_mem_enumeration (hstore : store.Plain indent)
    (h : v ∈ enumeration store settings) : Writable indent (.map v.record) := by
  rcases exists_parent_of_mem_enumeration hstore.plainIds h with ⟨d, hd, rfl⟩ |
    ⟨p, hp, -, name, hname, d, hd, rfl⟩
  · exact writable_baseRecord (hstore.writable hd) (hstore.noHalves_id hd) fun l hl => nomatch hl
  · refine writable_baseRecord (hstore.writable hd) (hstore.noHalves_id hd) fun l hl => ?_
    cases hl
    have hrelation := relation_mem_relationNames hstore.plainIds hp
    exact ⟨noHalves_of_mem_relationNames hrelation, noHalves_id_of_mem_enumeration hstore hp,
      hstore.noHalves_path hname⟩

theorem recordText_eq (h : Writable indent (.map v.record)) :
    Relation.Writer.recordText indent (.map v.record) = .ok (v.text indent) := by
  obtain ⟨text, htext, -⟩ := h
  rw [Visit.text, htext]
  rfl

/-! The whole export. -/

theorem Surroundings.length_rootDocuments_le (x : Surroundings) :
    x.rootDocuments.length ≤ (x.ctx.store.documents x.ctx.settings.collection).length := by
  unfold rootDocuments
  dsimp only
  split
  · exact Nat.le_refl _
  · exact List.length_take_le' ..

theorem Surroundings.exists_runs_exportCollection {x : Surroundings} {s : State} (hx : x.Sound)
    (hstore : x.ctx.store.PlainIds) (hs : x.Has (fun _ => []) s) (hseen : s.result.seen = [])
    (hkeys : Keyed.keys s.result.relations = [Relation.sanitize x.ctx.settings.collection])
    (hready : ∀ v ∈ enumeration x.ctx.store x.ctx.settings, x.Ready v) :
    ∃ s', Step.Runs (exportCollection x.ctx (Relation.sanitize x.ctx.settings.collection)) s () s' ∧
      x.Exported (fun _ => []) s (enumeration x.ctx.store x.ctx.settings) s' ∧
      ∀ r, r ∈ Keyed.keys s'.result.relations ↔ r ∈ relationNames x.ctx.store x.ctx.settings := by
  have hlength : x.rootDocuments.length <
      0 + ((x.ctx.store.documents x.ctx.settings.collection).length + 1) := by
    have := x.length_rootDocuments_le
    omega
  have hr : Relation.sanitize x.ctx.settings.collection ∈ Keyed.keys s.result.relations := by
    rw [hkeys]
    exact List.mem_singleton_self _
  have h := exists_runs_exportBatches hx hlength hs hr
  rw [List.drop_zero, ← roots_eq, hseen, pruneAll_roots hstore] at h
  obtain ⟨s', hrun, hexported⟩ := h hready
  refine ⟨s', hrun, hexported, fun r => ?_⟩
  rw [hexported.relations, hkeys, List.mem_singleton, mem_relationNames]
  rfl

/-- Batches, the limit, the bounds on depth and on nested collections, and documents met twice make
no difference to what the files hold: it is the enumeration. -/
theorem export_flatten {e : Exporter} {order : Order} (period : Time.Period) {session : Session}
    {base : File.Tree} (ho : order.settings = .ok settings) (hmode : settings.mode = .flatten)
    (hhooks : e.hooks = []) (hstore : e.store.Plain session.writer.indent)
    (hnever : session.cancellation = .never)
    (hbase : session.files.makeDirectories session.writer.directory = .ok base)
    (hfiles : ∀ r ∈ relationNames e.store settings,
      ∃ t, base.write (session.writer.path r) .empty = .ok t) :
    Flattened e.store settings session.writer base (e.export order period session) := by
  have hdirectory := File.Tree.isDirectory_of_makeDirectories hbase
  obtain ⟨place, hplace, -⟩ := File.Tree.isDirectory_iff.1 hdirectory
  let x : Surroundings := ⟨⟨e.store, e.hooks, settings, period⟩, session.writer, base, place⟩
  have hx : x.Sound :=
    ⟨hmode, hhooks, hstore.attached, hstore.fetches, hstore.listings, hdirectory⟩
  have hreceives : ∀ r ∈ relationNames e.store settings,
      base.Receives (session.writer.path r) (jsonFile place r) := fun r hr =>
    receives_of_mem_relationNames hplace hr (hfiles r hr)
  have hready : ∀ v ∈ enumeration e.store settings, x.Ready v := fun v hv =>
    ⟨hreceives _ (relation_mem_relationNames hstore.plainIds hv),
      writable_of_mem_enumeration hstore hv⟩
  have hinitial : x.Has (fun _ => []) (.initial settings period session) :=
    ⟨hnever, Relation.Holds.begin hbase⟩
  obtain ⟨s, hrun, hexported, hrelations⟩ :=
    x.exists_runs_exportCollection hx hstore.plainIds hinitial rfl rfl hready
  have hsome : Keyed.keys s.result.relations ≠ [] :=
    List.ne_nil_of_mem ((hrelations _).2 List.mem_cons_self)
  obtain ⟨writer, files, hclose, -, hfilled⟩ := hexported.has.holds.finalize hdirectory hsome
    (fun r hr => hexported.mem_keys_of_added hr) fun r hr => hreceives r ((hrelations r).1 hr)
  rw [Exporter.export_eq ho hrun hclose]
  constructor
  · refine ⟨_, rfl, hexported.errors, fun r => ?_⟩
    rw [Result.keys_completed, hrelations]
  · intro r hr
    refine ⟨((enumeration e.store settings).filter (·.relation == r)).map
      (Visit.text session.writer.indent), ?_, ?_⟩
    · rw [List.map_map]
      refine List.map_congr_left fun v hv => ?_
      exact recordText_eq (writable_of_mem_enumeration hstore (List.mem_filter.1 hv).1)
    · refine hfilled.read (hreceives r hr) ?_
      rw [if_pos ((hrelations r).2 hr)]
      rfl
  · intro p hp
    refine hfilled.other p fun r hr hpath => ?_
    have hmem : r ∈ Keyed.keys s.result.relations := by
      by_contra hnot
      exact hr (if_neg hnot)
    have hrelation := (hrelations r).1 hmem
    refine hp r hrelation ?_
    rw [hpath]
    exact (hreceives r hrelation).resolve_eq
  · have hlistings : s.listings = _ ++ [] := hexported.listings
    rw [List.append_nil] at hlistings
    rw [List.filterMap_reverse]
    exact (congrArg List.reverse hlistings).trans (List.reverse_reverse _)
  · exact fun v _ => records_baseRecord v.document v.linkage
  · exact fun v hv => exists_parent_of_mem_enumeration hstore.plainIds hv

/-- A store with a document that is listed twice and has orders below it. -/
def Store.withOrders : Store where
  collections :=
    [("users", [⟨"ada", [(.text "name", .text "Ada")]⟩, ⟨"bob", []⟩, ⟨"ada", []⟩]),
      ("users/ada/orders", [⟨"first", [(.text "id", .int 7)]⟩])]
  distinct := by decide

theorem Store.plain_withOrders : Store.withOrders.Plain (some 2) := by
  have hpaths : ∀ c ∈ withOrders.collections, NoHalves c.1.toList := by decide
  have hids : ∀ c ∈ withOrders.collections, ∀ d ∈ c.2, '/' ∉ d.id.toList ∧ NoHalves d.id.toList := by
    decide
  refine ⟨rfl, rfl, rfl, hpaths, hids, fun c hc d hd => ?_⟩
  simp only [withOrders, List.mem_cons, List.not_mem_nil, or_false] at hc
  rcases hc with rfl | rfl
  · simp only [List.mem_cons, List.not_mem_nil, or_false] at hd
    rcases hd with rfl | rfl | rfl
    · exact ⟨_, rfl, by decide⟩
    · exact ⟨_, rfl, by decide⟩
    · exact ⟨_, rfl, by decide⟩
  · obtain rfl := List.mem_singleton.1 hd
    exact ⟨_, rfl, by decide⟩

theorem export_flatten_withOrders :
    (enumeration .withOrders ⟨"users", 2, 0, true, 1, 100, .flatten, by decide⟩).map Visit.path =
        ["users/ada", "users/ada/orders/first", "users/bob"] ∧
      Flattened .withOrders ⟨"users", 2, 0, true, 1, 100, .flatten, by decide⟩
        ⟨⟨false, ["out"]⟩, some 2, [], false⟩ ⟨[(⟨false, ["out"]⟩, .directory)]⟩
        ((Exporter.mk .withOrders []).export
          { collection := "users", batchSize := 2, includeSubcollections := true, maxDepth := 1 }
          ⟨⟨⟨2024, 5, 1⟩, {}, some 0⟩, ⟨⟨2024, 5, 1⟩, {}, some 0⟩⟩
          ⟨⟨⟨false, ["out"]⟩, some 2, [], false⟩, .empty, .never⟩) := by
  refine ⟨by decide, ?_⟩
  have hnames : relationNames .withOrders ⟨"users", 2, 0, true, 1, 100, .flatten, by decide⟩ =
      ["users", "users_orders"] := by decide
  refine @export_flatten _ ⟨.withOrders, []⟩ _ _
    ⟨⟨⟨false, ["out"]⟩, some 2, [], false⟩, .empty, .never⟩ _ rfl rfl rfl Store.plain_withOrders rfl
    rfl fun r hr => ?_
  rw [hnames] at hr
  simp only [List.mem_cons, List.not_mem_nil, or_false] at hr
  rcases hr with rfl | rfl
  · exact ⟨_, rfl⟩
  · exact ⟨_, rfl⟩

end BackendMigration.Export
