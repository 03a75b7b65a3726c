import BackendMigration.Load.Loader
import BackendMigration.Proofs.Export.Complete
import BackendMigration.Proofs.Export.Record

/-! Which records of a relation file the column that identifies rows tells apart. -/
namespace BackendMigration.Export

open BackendMigration.Relation (Log readBack sanitize)
open Document (isFree)

/-- The column that a loader takes to identify a row, unless another one is asked for. -/
def rowColumn : String := "firestore_id"

theorem onConflict_default (url key : Document.Value) :
    ({ url, key } : Load.Settings).onConflict = .text rowColumn :=
  rfl

namespace Visit

/-- By what the document is recognized in an export: its relation, and its path if it knows it. -/
def mark (ctx : Context) (v : Visit) : String × String :=
  (v.relation, documentKey ctx v.relation v.collectionPath v.document)

/-- What is written for the document. -/
def write (v : Visit) : String × Document.Value := (v.relation, .map v.record)

/-- The document has a value of its own in the column that identifies rows. -/
def IsIdentified (v : Visit) : Prop := isFree v.document.entries rowColumn = false

/-- What the record has in the column that identifies rows. -/
def row? (v : Visit) : Option Document.Value := v.record.get? rowColumn

variable {v w : Visit} {ctx : Context}

/-- A document without a value of its own is identified by its id. -/
theorem row?_eq (h : ¬v.IsIdentified) : v.row? = some (.text v.document.id) := by
  have hfree : isFree v.document.entries rowColumn = true := by
    simpa [IsIdentified] using h
  exact (records_baseRecord v.document v.linkage).identity rowColumn
    (List.find?_cons_of_pos hfree)

/-- Two documents of one relation differ in their ids or, where documents know their paths, in their
collections. -/
theorem differ_of_mark_ne (hr : v.relation = w.relation) (h : v.mark ctx ≠ w.mark ctx) :
    v.document.id ≠ w.document.id ∨
      v.collectionPath ≠ w.collectionPath ∧ ctx.store.pathless = false := by
  by_cases hid : v.document.id = w.document.id
  · right
    constructor
    · intro hpath
      exact h (Prod.ext hr (by simp only [mark, documentKey, hr, hid, hpath]))
    · by_cases hpathless : ctx.store.pathless = true
      · exact absurd (Prod.ext hr (by simp only [mark, documentKey, hr, hid, hpathless, if_true])) h
      · simpa using hpathless
  · exact .inl hid

end Visit

/-- Two documents are different, and their records are told apart unless one of them is identified by
its data or both have the same id in different collections. -/
structure ToldApart (store : Store) (v w : Visit) : Prop where
  different : v.document.id ≠ w.document.id ∨
    v.collectionPath ≠ w.collectionPath ∧ store.pathless = false
  row : v.row? = w.row? → v.IsIdentified ∨ w.IsIdentified ∨
    v.document.id = w.document.id ∧ v.collectionPath ≠ w.collectionPath ∧ store.pathless = false

theorem toldApart_of_mark_ne {ctx : Context} {v w : Visit} (hr : v.relation = w.relation)
    (h : v.mark ctx ≠ w.mark ctx) : ToldApart ctx.store v w := by
  refine ⟨Visit.differ_of_mark_ne hr h, fun hrow => ?_⟩
  by_cases hv : v.IsIdentified
  · exact .inl hv
  · by_cases hw : w.IsIdentified
    · exact .inr (.inl hw)
    · rw [Visit.row?_eq hv, Visit.row?_eq hw, Option.some.injEq, Document.Value.text.injEq] at hrow
      rcases Visit.differ_of_mark_ne hr h with hid | hother
      · exact absurd hrow hid
      · exact .inr (.inr ⟨hrow, hother⟩)

/-- The documents written so far in an export, each at its own mark and all of them met before. -/
structure Marked (ctx : Context) (session : Session) (visits : List Visit)
    (attempts : List (String × Document.Value)) (s : State) : Prop where
  accounts : Accounts session attempts s
  written : (Log.run session.writer session.files attempts).written = visits.map Visit.write
  nodup : (visits.map (Visit.mark ctx)).Nodup
  seen : ∀ v ∈ visits, v.mark ctx ∈ s.result.seen
  stored : ∀ v ∈ visits, v.document ∈ ctx.store.documents v.collectionPath

/-- The documents written so far have marks of their own. -/
def IsMarked (ctx : Context) (session : Session) (s : State) : Prop :=
  ∃ visits attempts, Marked ctx session visits attempts s

variable {ctx : Context} {session : Session} {visits : List Visit}
  {attempts : List (String × Document.Value)} {s s' : State}

theorem Marked.of_eq (h : Marked ctx session visits attempts s)
    (hs : Accounts session attempts s') (hseen : s'.result.seen = s.result.seen) :
    Marked ctx session visits attempts s' :=
  ⟨hs, h.written, h.nodup, by rw [hseen]; exact h.seen, h.stored⟩

/-- A document that is met for the first time gets a mark of its own. -/
theorem isMarked_writeRecord (h : IsMarked ctx session s) (hhooks : ctx.hooks = []) {v : Visit}
    (hv : v.document ∈ ctx.store.documents v.collectionPath) (hr : sanitize v.relation = v.relation) :
    IsMarked ctx session ((writeRecord ctx v.relation v.record
      (documentKey ctx v.relation v.collectionPath v.document) v.depth).run.run s).2 := by
  obtain ⟨visits, attempts, h⟩ := h
  rw [Step.run_writeRecord hhooks]
  split
  · exact ⟨visits, attempts, h.of_eq (h.accounts.of_eq rfl rfl rfl) rfl⟩
  · rename_i hnew
    rw [Step.snd_run_bind_pure]
    have hmet : Accounts session attempts
        (s.met v.relation (documentKey ctx v.relation v.collectionPath v.document)) :=
      h.accounts.of_eq rfl rfl rfl
    have hstored := hmet.storeRecord hr v.depth (.map v.record)
    have hseen : ∀ w, w = v ∨ w ∈ visits → w.mark ctx ∈ ((storeRecord v.relation v.depth
        (.map v.record)).run.run (s.met v.relation
          (documentKey ctx v.relation v.collectionPath v.document))).2.result.seen := by
      rw [Step.seen_storeRecord]
      rintro w (rfl | hw)
      · exact List.mem_cons_self
      · exact List.mem_cons_of_mem _ (h.seen w hw)
    rcases Log.written_attempt (Log.run session.writer session.files attempts)
      (v.relation, .map v.record) with hw | hw
    · refine ⟨visits, _, hstored, ?_, h.nodup, fun w hw => hseen w (.inr hw), h.stored⟩
      rw [Log.run_concat, hw, h.written]
    · have hmark : v.mark ctx ∉ visits.map (Visit.mark ctx) := by
        intro hmem
        obtain ⟨w, hw, hvw⟩ := List.mem_map.1 hmem
        have := h.seen w hw
        rw [hvw] at this
        exact hnew this
      refine ⟨visits ++ [v], _, hstored, ?_, ?_, fun w hw => hseen w ?_, fun w hw => ?_⟩
      · rw [Log.run_concat, hw, h.written, List.map_append]
        rfl
      · rw [List.map_append, List.nodup_append]
        refine ⟨h.nodup, by simp, fun a ha b hb => ?_⟩
        rw [List.map_singleton, List.mem_singleton] at hb
        rintro rfl
        exact hmark (hb ▸ ha)
      · exact (List.mem_append.1 hw).elim .inr fun hw => .inl (List.mem_singleton.1 hw)
      · rcases List.mem_append.1 hw with hw | hw
        · exact h.stored w hw
        · rw [List.mem_singleton.1 hw]
          exact hv

theorem isMarked_of_eq (h : IsMarked ctx session s) (hw : s'.writer = s.writer)
    (hf : s'.files = s.files) (hr : s'.result.relations = s.result.relations)
    (hseen : s'.result.seen = s.result.seen) : IsMarked ctx session s' := by
  obtain ⟨visits, attempts, h⟩ := h
  exact ⟨visits, attempts, h.of_eq (h.accounts.of_eq hw hf hr) hseen⟩

theorem steady_isMarked (hmode : ctx.settings.mode = .flatten) (hhooks : ctx.hooks = []) :
    Steady ctx (IsMarked ctx session) where
  asked := fun _ h => isMarked_of_eq h rfl rfl rfl rfl
  cancelled := fun _ h => isMarked_of_eq h rfl rfl rfl rfl
  requested := fun _ _ h => isMarked_of_eq h rfl rfl rfl rfl
  noted := fun _ _ _ h => isMarked_of_eq h rfl rfl rfl rfl
  opened := fun u name s ⟨visits, attempts, h⟩ => by
    exact ⟨visits, attempts, h.of_eq (h.accounts.ensure
      (BackendMigration.Relation.sanitize_sanitize _) _ _) (Result.seen_ensure _ _ _ _)⟩
  written := fun v record hv hr hrecord s h => by
    rw [hrecord hmode]
    exact isMarked_writeRecord h hhooks hv hr

/-- The file of a relation holds the records of documents of the store, of which any two are told
apart. -/
def Identifies (store : Store) (session : Session) (files : File.Tree) (r : String) : Prop :=
  ∃ visits : List Visit,
    Relation.read files (session.writer.path r) =
      .ok (visits.map fun v => readBack (.map v.record)) ∧
    (∀ v ∈ visits, v.relation = r ∧ v.document ∈ store.documents v.collectionPath) ∧
    visits.Pairwise (ToldApart store)

theorem Marked.identifies (h : Marked ctx session visits attempts s) {files : File.Tree} {r : String}
    (hread : Relation.read files (session.writer.path r) =
      .ok (((Log.run session.writer session.files attempts).writtenTo r).map readBack)) :
    Identifies ctx.store session files r := by
  have hwritten : (Log.run session.writer session.files attempts).writtenTo r =
      (visits.filter (·.relation == r)).map fun v => .map v.record := by
    rw [Log.writtenTo, h.written, List.filter_map, List.map_map]
    rfl
  refine ⟨visits.filter (·.relation == r), ?_, fun v hv => ?_, ?_⟩
  · rw [hread, hwritten, List.map_map]
    rfl
  · obtain ⟨hv, hr⟩ := List.mem_filter.1 hv
    exact ⟨eq_of_beq hr, h.stored v hv⟩
  · have hnodup : visits.Pairwise fun v w => v.mark ctx ≠ w.mark ctx :=
      List.pairwise_map.1 h.nodup
    refine (hnodup.filter (·.relation == r)).imp_of_mem fun hv hw hne => ?_
    refine toldApart_of_mark_ne ?_ hne
    rw [eq_of_beq (List.mem_filter.1 hv).2, eq_of_beq (List.mem_filter.1 hw).2]

theorem isMarked_initial (ctx : Context) (settings : Settings) (period : Time.Period)
    (session : Session) : IsMarked ctx session (.initial settings period session) :=
  ⟨[], [], accounts_initial settings period session, rfl, List.nodup_nil,
    fun _ h => absurd h List.not_mem_nil, fun _ h => absurd h List.not_mem_nil⟩

/-- The records in the file of a relation come from different documents of the store, and two of them
differ in the column that identifies rows unless this is in the data of one of them, or they come
from different collections and have the same id. -/
theorem export_identifies {e : Exporter} {order : Order} {settings : Settings} (period : Time.Period)
    (session : Session) (ho : order.settings = .ok settings) (hmode : settings.mode = .flatten)
    (hhooks : e.hooks = []) (hclosed : (e.export order period session).IsClosed) :
    ∃ attempts relations,
      Complete session (Log.run session.writer session.files attempts) relations
        (e.export order period session).session.files ∧
      (∀ result, (e.export order period session).result = .ok result →
        relations = Keyed.keys result.relations) ∧
      ∀ r ∈ relations, Identifies e.store session (e.export order period session).session.files r := by
  let ctx : Context := ⟨e.store, e.hooks, settings, period⟩
  obtain ⟨visits, attempts, hmarked⟩ := (@steady_isMarked ctx session hmode hhooks).exportCollection
    _ (isMarked_initial ctx settings period session)
  obtain ⟨hcomplete, hresult⟩ := exists_complete_of_isClosed (e := e) ho hclosed hmarked.accounts
  refine ⟨attempts, _, hcomplete, fun result hr => (hresult result hr).1.symm, fun r hr => ?_⟩
  obtain ⟨base, place, -, -, hfinished⟩ := hcomplete.2
  exact hmarked.identifies (hfinished.read r hr)

/-- Two documents of which one has the id of the other among its data, each with an order of the same
id. -/
def Store.withSharedIds : Store where
  collections :=
    [("u", [⟨"a", [(.text rowColumn, .text "b")]⟩, ⟨"b", []⟩]), ("u/a/o", [⟨"x", []⟩]),
      ("u/b/o", [⟨"x", []⟩])]
  distinct := by decide

def sharedIds : Outcome :=
  (Exporter.mk .withSharedIds []).export
    { collection := "u", includeSubcollections := true, maxDepth := 1 }
    ⟨⟨⟨2024, 5, 1⟩, {}, some 0⟩, ⟨⟨2024, 5, 1⟩, {}, some 0⟩⟩
    ⟨⟨⟨false, []⟩, none, [], false⟩, .empty, .never⟩

theorem export_identifies_sharedIds :
    sharedIds.IsClosed ∧ ∃ attempts relations,
      Complete ⟨⟨⟨false, []⟩, none, [], false⟩, .empty, .never⟩
        (Log.run ⟨⟨false, []⟩, none, [], false⟩ .empty attempts) relations sharedIds.session.files ∧
      (∀ result, sharedIds.result = .ok result → relations = Keyed.keys result.relations) ∧
      ∀ r ∈ relations, Identifies .withSharedIds
        ⟨⟨⟨false, []⟩, none, [], false⟩, .empty, .never⟩ sharedIds.session.files r := by
  have hclosed : sharedIds.IsClosed := by decide +kernel
  exact ⟨hclosed, @export_identifies ⟨.withSharedIds, []⟩
    { collection := "u", includeSubcollections := true, maxDepth := 1 }
    ⟨"u", 1000, 0, true, 1, 100, .flatten, by decide⟩ _ _ rfl rfl rfl hclosed⟩

/-- The documents share a row, and so do their orders. -/
theorem sharedIds_share_rows :
    let rows (relation : String) :=
      (Relation.read sharedIds.session.files ⟨false, [relation ++ ".json"]⟩).toOption.map
        (·.map fun record => (record.field? "parent_document_id", record.field? rowColumn))
    rows "u" = some [(none, some (.str "b")), (none, some (.str "b"))] ∧
      rows "u_o" = some [(some (.str "a"), some (.str "x")), (some (.str "b"), some (.str "x"))] := by
  decide +kernel

end BackendMigration.Export
