import BackendMigration.Proofs.Export.Complete
import BackendMigration.Proofs.Export.Enumeration
import BackendMigration.Proofs.Export.Unnest

/-! An export that nests documents in the records of their parents has the same data as one that
writes them to relations of their own. -/
namespace BackendMigration.Export

open BackendMigration.Relation (Log readBack sanitize)
open Json (settled settledFields settledItems)

/-! Paths and what is below them. -/

/-- A path is another one or goes on from it. -/
def Within (path q : String) : Prop := ∃ rest, GoesOn rest ∧ q.toList = path.toList ++ rest

section paths

variable {p q x y : String}

theorem within_self (p : String) : Within p p := ⟨[], .inl rfl, (List.append_nil _).symm⟩

theorem toList_below (p x : String) : (p ++ "/" ++ x).toList = p.toList ++ '/' :: x.toList := by
  simp

theorem Within.of_below (h : Within (p ++ "/" ++ x) q) : Within p q := by
  obtain ⟨rest, -, hq⟩ := h
  rw [toList_below, List.append_assoc] at hq
  exact ⟨_, .inr ⟨_, rfl⟩, hq⟩

theorem Within.eq_of_below (h : Within (p ++ "/" ++ x) q) (h' : Within (p ++ "/" ++ y) q)
    (hx : '/' ∉ x.toList) (hy : '/' ∉ y.toList) : x = y := by
  obtain ⟨rest, hgoes, hq⟩ := h
  obtain ⟨rest', hgoes', hq'⟩ := h'
  have hcount : (p ++ "/" ++ x).toList.count '/' = (p ++ "/" ++ y).toList.count '/' := by
    rw [toList_below, toList_below, List.count_append, List.count_append, List.count_cons_self,
      List.count_cons_self, List.count_eq_zero.2 hx, List.count_eq_zero.2 hy]
  have heq := eq_of_append_eq hgoes hgoes' hcount (hq.symm.trans hq')
  rw [toList_below, toList_below] at heq
  exact String.toList_injective (List.cons.inj (List.append_cancel_left heq)).2

theorem not_within_below (p x : String) : ¬Within (p ++ "/" ++ x) p := by
  rintro ⟨rest, -, hp⟩
  have hlength := congrArg List.length hp
  rw [toList_below, List.length_append, List.length_append, List.length_cons] at hlength
  omega

end paths

/-- No document within a path was met. -/
def Unmet (path : String) (s : State) : Prop := ∀ k ∈ s.result.seen, ¬Within path k.2

/-- From one state to another only documents within a path are met. -/
structure Meets (path : String) (s t : State) : Prop where
  kept : ∀ k ∈ s.result.seen, k ∈ t.result.seen
  new : ∀ k ∈ t.result.seen, k ∈ s.result.seen ∨ Within path k.2

namespace Meets

variable {p q x y : String} {s t u : State}

theorem of_eq (h : t.result.seen = s.result.seen) : Meets p s t := by
  constructor <;> rw [h]
  · exact fun _ => id
  · exact fun _ => .inl

theorem trans (h : Meets p s t) (h' : Meets p t u) : Meets p s u :=
  ⟨fun k hk => h'.kept k (h.kept k hk), fun k hk => (h'.new k hk).elim (h.new k) .inr⟩

theorem of_below (h : Meets (p ++ "/" ++ x) s t) : Meets p s t :=
  ⟨h.kept, fun k hk => (h.new k hk).imp_right Within.of_below⟩

theorem unmet (h : Meets p s t) (hq : Unmet q s) (hdisjoint : ∀ k, Within p k → ¬Within q k) :
    Unmet q t :=
  fun k hk => (h.new k hk).elim (hq k) (hdisjoint k.2)

/-- What is met below one name is not below another one. -/
theorem unmet_below (h : Meets (p ++ "/" ++ x) s t) (hy : Unmet (p ++ "/" ++ y) s) (hne : x ≠ y)
    (hx : '/' ∉ x.toList) (hy' : '/' ∉ y.toList) : Unmet (p ++ "/" ++ y) t :=
  h.unmet hy fun _ hk hk' => hne (hk.eq_of_below hk' hx hy')

end Meets

theorem Unmet.below {p x : String} {s : State} (h : Unmet p s) : Unmet (p ++ "/" ++ x) s :=
  fun k hk hw => h k hk hw.of_below

/-! Steps that end well. -/
namespace Step

variable {α β : Type} {m : Step α} {f : α → Step β} {s t u : State} {a : α} {b : β}

theorem Runs.of_bind (h : Runs (m >>= f) s b t) : ∃ a u, Runs m s a u ∧ Runs (f a) u b t := by
  unfold Runs at h
  rw [run_bind] at h
  rcases hm : m.run.run s with ⟨e | a, u⟩
  · rw [hm] at h
    cases h
  · rw [hm] at h
    exact ⟨a, u, hm, h⟩

theorem Runs.of_bind_of_runs (hm : Runs m s a u) (h : Runs (m >>= f) s b t) : Runs (f a) u b t := by
  unfold Runs at h ⊢
  rw [← h, run_of_bind hm]

theorem Runs.of_pure {a' : α} (h : Runs (Pure.pure a) s a' t) : a' = a ∧ t = s := by
  cases h
  exact ⟨rfl, rfl⟩

theorem Runs.eq {a' : α} (h : Runs m s a t) (h' : Runs m s a' u) : a' = a ∧ u = t := by
  unfold Runs at h h'
  rw [h] at h'
  cases h'
  exact ⟨rfl, rfl⟩

/-- A document that is met for the first time is written. -/
theorem exists_of_runs_writeRecord {ctx : Context} {relation key : String}
    {record : Document.Entries} {depth : Nat} {b : Bool} (hhooks : ctx.hooks = [])
    (hnew : (relation, key) ∉ s.result.seen)
    (h : Runs (writeRecord ctx relation record key depth) s b t) :
    b = true ∧ ∃ w files, s.writer.write s.files relation (.map record) = (.ok w, files) ∧
      t = ((storeRecord relation depth (.map record)).run.run (s.met relation key)).2 := by
  unfold Runs at h
  rw [run_writeRecord_of_new hhooks hnew] at h
  obtain ⟨_, u, hstore, hend⟩ := Runs.of_bind h
  obtain ⟨rfl, rfl⟩ := Runs.of_pure hend
  unfold Runs at hstore
  rw [hstore]
  rw [run_storeRecord] at hstore
  rcases hwrite : s.writer.write s.files relation (.map record) with ⟨e | w, files⟩
  · have hmet : (s.met relation key).writer.write (s.met relation key).files relation (.map record) =
        (.error e, files) := hwrite
    rw [hmet] at hstore
    cases hstore
  · exact ⟨rfl, w, files, rfl, rfl⟩

end Step

theorem exists_toJson_of_write {w w' : Relation.Writer} {files files' : File.Tree} {r : String}
    {value : Document.Value} (h : w.write files r value = (.ok w', files')) :
    ∃ j, value.toJson = .ok j := by
  unfold Relation.Writer.write at h
  split at h
  · cases h
  · split at h
    · cases h
    · rename_i text htext
      obtain ⟨j, hj, -⟩ := BackendMigration.Relation.recordText_eq_ok_iff.1 htext
      exact ⟨j, hj⟩

/-! Both exports, side by side. -/

/-- The records that an export has written so far. -/
def Stored (session : Session) (written : List (String × Document.Value)) (s : State) : Prop :=
  ∃ attempts, Accounts session attempts s ∧
    (Log.run session.writer session.files attempts).written = written

theorem Stored.of_eq {session : Session} {written : List (String × Document.Value)} {s s' : State}
    (h : Stored session written s) (hw : s'.writer = s.writer) (hf : s'.files = s.files)
    (hr : s'.result.relations = s.result.relations) : Stored session written s' :=
  h.imp fun _ ⟨haccounts, hwritten⟩ => ⟨haccounts.of_eq hw hf hr, hwritten⟩

theorem Stored.storeRecord {session : Session} {written : List (String × Document.Value)} {s : State}
    {r : String} {value : Document.Value} {w : Relation.Writer} {files : File.Tree}
    (h : Stored session written s) (hr : sanitize r = r)
    (hwrite : s.writer.write s.files r value = (.ok w, files)) (depth : Int) :
    Stored session (written ++ [(r, value)]) ((storeRecord r depth value).run.run s).2 := by
  obtain ⟨attempts, haccounts, rfl⟩ := h
  refine ⟨_, haccounts.storeRecord hr depth value, ?_⟩
  rw [haccounts.writer, haccounts.files] at hwrite
  rw [Log.run_concat, Log.attempt_of_ok (a := (r, value)) hwrite]

theorem mem_keys_storeRecord {s : State} {r name : String} {value : Document.Value}
    {w : Relation.Writer} {files : File.Tree}
    (hwrite : s.writer.write s.files r value = (.ok w, files)) (depth : Int) :
    name ∈ Keyed.keys ((storeRecord r depth value).run.run s).2.result.relations ↔
      name ∈ Keyed.keys s.result.relations ∨ name = r := by
  rw [Step.run_storeRecord, hwrite, Result.keys_addCount, Result.mem_keys_ensure]

theorem errors_storeRecord (s : State) (r : String) (depth : Int) (value : Document.Value) :
    let t := ((storeRecord r depth value).run.run s).2
    t.result.errors = s.result.errors ∧ t.requests = s.requests ∧ t.cancellation = s.cancellation := by
  rw [Step.run_storeRecord]
  rcases s.writer.write s.files r value with ⟨e | w, files⟩
  · exact ⟨rfl, rfl, rfl⟩
  · obtain ⟨relations, hensure⟩ := s.result.ensure_eq r depth none
    rw [hensure]
    exact ⟨rfl, rfl, rfl⟩

/-- The export of a context in another mode. -/
def Context.inMode (ctx : Context) (mode : Mode) : Context :=
  { ctx with settings := { ctx.settings with mode } }

/-- The relation of the exported collection. -/
def Context.rootRelation (ctx : Context) : String := sanitize ctx.settings.collection

/-- Both exports have made the same requests, with the same failures. One has written nested records
and met their documents, the other one some batches of records. -/
structure Paired (ctx : Context) (nested flat : Session) (records : List Document.Entries)
    (seen : List (String × String)) (batches : Batches) (s s' : State) : Prop where
  requests : s.requests = s'.requests
  errors : s.result.errors = s'.result.errors
  goes : s.cancellation = .never
  goes' : s'.cancellation = .never
  seen : s.result.seen = seen
  nested : Stored nested (records.map fun record => (ctx.rootRelation, .map record)) s
  begun : ctx.rootRelation ∈ Keyed.keys s.result.relations
  flat : ∃ written, Stored flat written s' ∧
    written.map (fun w => (w.1, readBack w.2)) = batches.entries
  relations : ∀ r, r ∈ Keyed.keys s'.result.relations ↔ r = ctx.rootRelation ∨ r ∈ batches.relations

namespace Paired

variable {ctx : Context} {nested flat : Session} {records : List Document.Entries}
  {seen : List (String × String)} {batches : Batches} {s s' t t' : State} {r key : String}
  {record : Document.Entries} {depth : Nat} {b : Bool}

theorem requested (h : Paired ctx nested flat records seen batches s s') (request : Request) :
    Paired ctx nested flat records seen batches { s with requests := request :: s.requests }
      { s' with requests := request :: s'.requests } :=
  ⟨congrArg (request :: ·) h.requests, h.errors, h.goes, h.goes', h.seen, h.nested.of_eq rfl rfl rfl, h.begun,
    h.flat.imp fun _ ⟨hstored, hbatches⟩ => ⟨hstored.of_eq rfl rfl rfl, hbatches⟩, h.relations⟩

theorem noted (h : Paired ctx nested flat records seen batches s s') (message path : String)
    (time : Time.Timestamp) : Paired ctx nested flat records seen batches
      { s with result := s.result.addError message (some path) time }
      { s' with result := s'.result.addError message (some path) time } := by
  refine ⟨h.requests, ?_, h.goes, h.goes', h.seen, h.nested.of_eq rfl rfl rfl, h.begun,
    h.flat.imp fun _ ⟨hstored, hbatches⟩ => ⟨hstored.of_eq rfl rfl rfl, hbatches⟩, h.relations⟩
  exact congrArg (· ++ _) h.errors

/-- A relation that is there from now on. -/
theorem opened (h : Paired ctx nested flat records seen batches s s') (hr : sanitize r = r)
    (depth : Int) (parent : Option String) : Paired ctx nested flat records seen (batches ++ [(r, [])])
      s { s' with result := s'.result.ensure r depth parent } := by
  obtain ⟨written, ⟨attempts, haccounts, rfl⟩, hbatches⟩ := h.flat
  obtain ⟨relations, hensure⟩ := s'.result.ensure_eq r depth parent
  refine ⟨h.requests, ?_, h.goes, h.goes', h.seen, h.nested, h.begun,
    ⟨_, ⟨attempts, haccounts.ensure hr depth parent, rfl⟩, ?_⟩, fun name => ?_⟩
  · rw [hensure]
    exact h.errors
  · rw [hbatches, Batches.entries_append]
    exact (List.append_nil _).symm
  · rw [Result.mem_keys_ensure, h.relations, Batches.relations_append, List.mem_append, or_assoc]
    exact or_congr_right (or_congr_right List.mem_singleton.symm)

/-- A record that is not nested. -/
theorem writeFlat (h : Paired ctx nested flat records seen batches s s') (hhooks : ctx.hooks = [])
    (hr : sanitize r = r) (hnew : (r, key) ∉ s'.result.seen) {mode : Mode}
    (hrun : Step.Runs (writeRecord (ctx.inMode mode) r record key depth) s' b t') :
    b = true ∧ t'.result.seen = (r, key) :: s'.result.seen ∧
      ∃ j, (Document.Value.map record).toJson = .ok j ∧
        Paired ctx nested flat records seen (batches ++ [(r, [settled j])]) s t' := by
  obtain ⟨rfl, w, files, hwrite, rfl⟩ := Step.exists_of_runs_writeRecord hhooks hnew hrun
  obtain ⟨j, hj⟩ := exists_toJson_of_write hwrite
  obtain ⟨written, hstored, hbatches⟩ := h.flat
  obtain ⟨herrors, hrequests, hgoes⟩ := errors_storeRecord (s'.met r key) r depth (.map record)
  have hread : readBack (.map record) = settled j := by
    rw [readBack, hj]
    rfl
  have hmet : Stored flat written (s'.met r key) := hstored.of_eq rfl rfl rfl
  refine ⟨rfl, Step.seen_storeRecord _ _ _ _, j, hj, h.requests.trans hrequests.symm,
    h.errors.trans herrors.symm, h.goes, hgoes.trans h.goes', h.seen, h.nested, h.begun,
    ⟨_, hmet.storeRecord hr hwrite depth, ?_⟩, fun name => ?_⟩
  · rw [List.map_append, hbatches, Batches.entries_append, List.map_singleton, hread]
    rfl
  · rw [mem_keys_storeRecord (s := s'.met r key) hwrite depth, Batches.relations_append,
      List.mem_append, ← or_assoc]
    exact or_congr (h.relations name) List.mem_singleton.symm

/-- A record that others are nested in. -/
theorem writeNested (h : Paired ctx nested flat records seen batches s s') (hhooks : ctx.hooks = [])
    (hnew : (ctx.rootRelation, key) ∉ seen) {mode : Mode}
    (hrun : Step.Runs (writeRecord (ctx.inMode mode) ctx.rootRelation record key depth) s b t) :
    Paired ctx nested flat (records ++ [record]) ((ctx.rootRelation, key) :: seen) batches t s' := by
  rw [← h.seen] at hnew
  obtain ⟨rfl, w, files, hwrite, rfl⟩ := Step.exists_of_runs_writeRecord hhooks hnew hrun
  obtain ⟨herrors, hrequests, hgoes⟩ :=
    errors_storeRecord (s.met ctx.rootRelation key) ctx.rootRelation depth (.map record)
  have hmet : Stored nested (records.map fun record => (ctx.rootRelation, .map record))
      (s.met ctx.rootRelation key) := h.nested.of_eq rfl rfl rfl
  refine ⟨hrequests.trans h.requests, herrors.trans h.errors, hgoes.trans h.goes, h.goes', ?_, ?_, ?_,
    h.flat, h.relations⟩
  · rw [Step.seen_storeRecord, ← h.seen]
    rfl
  · rw [List.map_append]
    exact hmet.storeRecord (BackendMigration.Relation.sanitize_sanitize _) hwrite depth
  · exact (mem_keys_storeRecord (s := s.met ctx.rootRelation key) hwrite depth).2 (.inr rfl)

end Paired

/-! The walk in both modes. -/

/-- A store whose documents know their paths and have ids of their own within their collection, and no
field of the name under which nested documents are kept. -/
structure Store.IsRegular (store : Store) : Prop where
  attached : store.pathless = false
  ids : ∀ c ∈ store.collections, ∀ d ∈ c.2, '/' ∉ d.id.toList
  distinct : ∀ c ∈ store.collections, c.2.Pairwise (·.id ≠ ·.id)
  fields : ∀ c ∈ store.collections, ∀ d ∈ c.2, d.IsPlain

namespace Store.IsRegular

variable {store : Store}

theorem plainIds (h : store.IsRegular) : store.PlainIds := by
  intro path d hd
  obtain ⟨c, hc, hd⟩ := exists_of_mem_documents hd
  exact h.ids c hc d hd

theorem plainFields (h : store.IsRegular) (path : String) :
    ∀ d ∈ store.documents path, d.IsPlain := by
  intro d hd
  obtain ⟨c, hc, hd⟩ := exists_of_mem_documents hd
  exact h.fields c hc d hd

theorem distinctIds (h : store.IsRegular) (path : String) :
    (store.documents path).Pairwise (·.id ≠ ·.id) := by
  rcases store.documents_eq path with hnone | ⟨c, hc, hdocuments⟩
  · rw [hnone]
    exact .nil
  · rw [hdocuments]
    exact h.distinct c hc

end Store.IsRegular

section walk

variable {ctx : Context} {nested flat : Session} {α β γ : Type}

/-- Steps of both exports within a path, from where `fresh` holds: what one of them gives has the
batches that the other one writes. -/
def PairedSteps (ctx : Context) (nested flat : Session) (fresh : State → Prop) (path : String)
    (gives : α → Batches → Prop) (m : Step α) (m' : Step β) : Prop :=
  ∀ ⦃records seen batches s s'⦄, Paired ctx nested flat records seen batches s s' → fresh s' →
    ∀ ⦃a t b t'⦄, Step.Runs m s a t → Step.Runs m' s' b t' → ∃ new, gives a new ∧
      Paired ctx nested flat records seen (batches ++ new) t t' ∧ Meets path s' t'

/-- The batches of a record of a relation. -/
def GivesRecord (r : String) (record : Document.Entries) (new : Batches) : Prop :=
  ∃ j, (Document.Value.map record).toJson = .ok j ∧ new = unnest r (settled j)

/-- The batches of the records of a collection. -/
def GivesRecords (r : String) (records : List Document.Entries) (new : Batches) : Prop :=
  ∃ js, Document.Value.itemsToJson (records.map .map) = .ok js ∧
    new = unnestItems r (settledItems js)

/-- The batches of what is nested in a record: the records of some of the collections listed. -/
def GivesGroups (r : String) (names : List String) (groups : Document.Entries) (new : Batches) : Prop :=
  ∃ gs, Document.Value.entriesToJson groups = .ok gs ∧ (Keyed.keys gs).Sublist names ∧
    new = unnestGroups r (settledFields gs)

theorem paired_mapM {p r : String} {f : StoredDocument → Step Document.Entries}
    {f' : StoredDocument → Step γ} {ds : List StoredDocument}
    (hf : ∀ d ∈ ds, PairedSteps ctx nested flat (Unmet (p ++ "/" ++ d.id)) (p ++ "/" ++ d.id)
      (GivesRecord r) (f d) (f' d))
    (hids : ∀ d ∈ ds, '/' ∉ d.id.toList) (hdistinct : ds.Pairwise (·.id ≠ ·.id)) :
    PairedSteps ctx nested flat (fun s => ∀ d ∈ ds, Unmet (p ++ "/" ++ d.id) s) p (GivesRecords r)
      (ds.mapM f) (ds.mapM f') := by
  induction ds with
  | nil =>
    intro records seen batches s s' h _ a t b t' hrun hrun'
    obtain ⟨rfl, rfl⟩ := Step.Runs.of_pure hrun
    obtain ⟨rfl, rfl⟩ := Step.Runs.of_pure hrun'
    exact ⟨[], ⟨[], rfl, rfl⟩, by rw [List.append_nil]; exact h, .of_eq rfl⟩
  | cons d rest ih =>
    intro records seen batches s s' h hfresh a t b t' hrun hrun'
    rw [List.mapM_cons] at hrun hrun'
    obtain ⟨record, u, hfirst, hrun⟩ := hrun.of_bind
    obtain ⟨others, u₂, hothers, hrun⟩ := hrun.of_bind
    obtain ⟨rfl, rfl⟩ := Step.Runs.of_pure hrun
    obtain ⟨c, u', hfirst', hrun'⟩ := hrun'.of_bind
    obtain ⟨cs, u₂', hothers', hrun'⟩ := hrun'.of_bind
    obtain ⟨rfl, rfl⟩ := Step.Runs.of_pure hrun'
    obtain ⟨hne, hdistinct⟩ := List.pairwise_cons.1 hdistinct
    obtain ⟨new, ⟨j, hj, rfl⟩, hpaired, hmeets⟩ :=
      hf d List.mem_cons_self h (hfresh d List.mem_cons_self) hfirst hfirst'
    have hfresh' : ∀ d' ∈ rest, Unmet (p ++ "/" ++ d'.id) u' := fun d' hd' =>
      hmeets.unmet_below (hfresh d' (List.mem_cons_of_mem d hd')) (hne d' hd')
        (hids d List.mem_cons_self) (hids d' (List.mem_cons_of_mem d hd'))
    obtain ⟨new', ⟨js, hjs, rfl⟩, hpaired', hmeets'⟩ :=
      ih (fun d' hd' => hf d' (List.mem_cons_of_mem d hd'))
        (fun d' hd' => hids d' (List.mem_cons_of_mem d hd')) hdistinct hpaired hfresh' hothers hothers'
    refine ⟨unnest r (settled j) ++ unnestItems r (settledItems js), ⟨j :: js, ?_, ?_⟩, ?_,
      hmeets.of_below.trans hmeets'⟩
    · rw [List.map_cons, Document.Value.itemsToJson, hj, hjs]
      rfl
    · rw [settledItems, unnestItems]
    · rw [← List.append_assoc]
      exact hpaired'

/-- Steps for each document below another one, in both modes. -/
def PairsBelow (ctx : Context) (nested flat : Session) (v : Visit)
    (visit visit' : StoredDocument → String → String → Linkage → Step Document.Entries) : Prop :=
  ∀ (name : String), ∀ d ∈ ctx.store.documents (v.path ++ "/" ++ name),
    let path := v.path ++ "/" ++ name
    PairedSteps ctx nested flat (Unmet (path ++ "/" ++ d.id)) (path ++ "/" ++ d.id)
      (GivesRecord (nestedRelation v.relation name))
      (visit d (nestedRelation v.relation name) path ⟨v.relation, v.document.id, path⟩)
      (visit' d (nestedRelation v.relation name) path ⟨v.relation, v.document.id, path⟩)

/-- The documents of one collection, as far as they are fetched. -/
theorem paired_children (hstore : ctx.store.IsRegular) {v : Visit}
    {visit visit' : StoredDocument → String → String → Linkage → Step Document.Entries}
    (hvisit : PairsBelow ctx nested flat v visit visit') {name : String} {limit : Nat}
    {children : List StoredDocument}
    (hfetch : ctx.store.fetch (v.path ++ "/" ++ name) limit 0 = .ok children) :
    let r := nestedRelation v.relation name
    let path := v.path ++ "/" ++ name
    PairedSteps ctx nested flat (Unmet path) path (GivesRecords r)
      (children.mapM fun d => visit d r path ⟨v.relation, v.document.id, path⟩)
      (children.mapM fun d => visit' d r path ⟨v.relation, v.document.id, path⟩) := by
  have hstored := fun d hd => Steady.mem_of_fetch (d := d) hfetch hd
  have hdistinct : children.Pairwise (·.id ≠ ·.id) := by
    unfold Store.fetch at hfetch
    split at hfetch
    · cases hfetch
    · cases hfetch
      exact ((hstore.distinctIds _).drop).take
  intro r path records seen batches s s' h hfresh
  exact paired_mapM (fun d hd => hvisit name d (hstored d hd))
    (fun d hd => hstore.plainIds _ d (hstored d hd)) hdistinct h fun d _ => hfresh.below

theorem paired_walkCollections (hstore : ctx.store.IsRegular) {v : Visit}
    {visit visit' : StoredDocument → String → String → Linkage → Step Document.Entries}
    (hvisit : PairsBelow ctx nested flat v visit visit') {names : List String}
    (hnames : ∀ name ∈ names, '/' ∉ name.toList) (hdistinct : names.Nodup) :
    PairedSteps ctx nested flat (fun s => ∀ name ∈ names, Unmet (v.path ++ "/" ++ name) s) v.path
      (GivesGroups v.relation names)
      (walkCollections (ctx.inMode .nest) visit v.document v.relation v.depth v.path names)
      (walkCollections (ctx.inMode .flatten) visit' v.document v.relation v.depth v.path names) := by
  induction names with
  | nil =>
    intro records seen batches s s' h _ a t b t' hrun hrun'
    obtain ⟨rfl, rfl⟩ := Step.Runs.of_pure hrun
    obtain ⟨rfl, rfl⟩ := Step.Runs.of_pure hrun'
    exact ⟨[], ⟨[], rfl, .slnil, rfl⟩, by rw [List.append_nil]; exact h, .of_eq rfl⟩
  | cons name rest ih =>
    intro records seen batches s s' h hfresh a t b t' hrun hrun'
    obtain ⟨hnot, hdistinct⟩ := List.nodup_cons.1 hdistinct
    have ih := ih (fun n hn => hnames n (List.mem_cons_of_mem name hn)) hdistinct
    rw [walkCollections] at hrun hrun'
    have hrun := Step.Runs.of_bind_of_runs (Step.runs_isCancelled h.goes) hrun
    have hrun' := Step.Runs.of_bind_of_runs (Step.runs_isCancelled h.goes') hrun'
    dsimp only at hrun hrun'
    have hrun := Step.Runs.of_bind_of_runs (Step.runs_logRequest _ s) hrun
    have hrun' := Step.Runs.of_bind_of_runs (Step.runs_logRequest _ s') hrun'
    have h := h.requested (.fetch (v.path ++ "/" ++ name) ctx.settings.subcollectionLimit 0)
    cases hfetch : ctx.store.fetch (v.path ++ "/" ++ name) ctx.settings.subcollectionLimit 0 with
    | error message =>
      have hmode (mode : Mode) : (ctx.inMode mode).store.fetch (v.path ++ "/" ++ name)
          (ctx.inMode mode).settings.subcollectionLimit 0 = .error message := hfetch
      rw [hmode] at hrun hrun'
      have hrun := Step.Runs.of_bind_of_runs (Step.runs_updateResult _ _) hrun
      have hrun' := Step.Runs.of_bind_of_runs (Step.runs_updateResult _ _) hrun'
      obtain ⟨new, ⟨gs, hgs, hsub, rfl⟩, hpaired, hmeets⟩ := ih (h.noted _ _ _)
        (fun n hn => hfresh n (List.mem_cons_of_mem name hn)) hrun hrun'
      exact ⟨_, ⟨gs, hgs, hsub.cons name, rfl⟩, hpaired, hmeets.kept, hmeets.new⟩
    | ok children =>
      have hmode (mode : Mode) : (ctx.inMode mode).store.fetch (v.path ++ "/" ++ name)
          (ctx.inMode mode).settings.subcollectionLimit 0 = .ok children := hfetch
      have hnest : ¬(ctx.inMode .nest).settings.mode = .flatten := fun h => nomatch h
      have hflat : (ctx.inMode .flatten).settings.mode = .flatten := rfl
      rw [hmode] at hrun hrun'
      dsimp only at hrun hrun'
      rw [if_neg hnest] at hrun
      rw [if_pos hflat] at hrun'
      have hrun' := Step.Runs.of_bind_of_runs (Step.runs_updateResult _ _) hrun'
      obtain ⟨records₁, u, hchildren, hrun⟩ := hrun.of_bind
      obtain ⟨groups, u₁, hrest, hrun⟩ := hrun.of_bind
      obtain ⟨rfl, rfl⟩ := Step.Runs.of_pure hrun
      obtain ⟨_, u', hchildren', hrun'⟩ := hrun'.of_bind
      obtain ⟨_, u₁', hrest', hrun'⟩ := hrun'.of_bind
      obtain ⟨rfl, rfl⟩ := Step.Runs.of_pure hrun'
      have h := h.opened (Steady.sanitize_nestedRelation v.relation name) (v.depth + 1)
        (some v.relation)
      have hopened (path : String) : Unmet path s' → Unmet path { s' with
          requests := .fetch (v.path ++ "/" ++ name) ctx.settings.subcollectionLimit 0 :: s'.requests
          result := s'.result.ensure (nestedRelation v.relation name) (v.depth + 1)
            (some v.relation) } := by
        unfold Unmet
        rw [Result.seen_ensure]
        exact id
      obtain ⟨new, ⟨js, hjs, rfl⟩, hpaired, hmeets⟩ := paired_children hstore hvisit hfetch h
        (hopened _ (hfresh name List.mem_cons_self)) hchildren hchildren'
      have hfresh' : ∀ n ∈ rest, Unmet (v.path ++ "/" ++ n) u' := fun n hn =>
        hmeets.unmet_below (hopened _ (hfresh n (List.mem_cons_of_mem name hn)))
          (fun he => hnot (he ▸ hn)) (hnames name List.mem_cons_self)
          (hnames n (List.mem_cons_of_mem name hn))
      obtain ⟨new', ⟨gs, hgs, hsub, rfl⟩, hpaired', hmeets'⟩ := ih hpaired hfresh' hrest hrest'
      refine ⟨(nestedRelation v.relation name, []) ::
        (unnestItems (nestedRelation v.relation name) (settledItems js) ++
          unnestGroups v.relation (settledFields gs)),
        ⟨(name, .arr js) :: gs, ?_, hsub.cons_cons name, ?_⟩, ?_, ?_⟩
      · refine Document.Value.entriesToJson_cons rfl ?_ hgs
        rw [Document.Value.toJson, hjs]
        rfl
      · rw [settledFields, settled, unnestGroups]
      · simpa using hpaired'
      · refine Meets.trans (Meets.of_eq ?_) (hmeets.of_below.trans hmeets')
        exact Result.seen_ensure _ _ _ _

/-- What is nested in a record, as far as it was listed. -/
def GivesNested (r : String) (nested : Document.Value) (new : Batches) : Prop :=
  ∃ entries names, nested = .map entries ∧ names.Nodup ∧ GivesGroups r names entries new

theorem paired_walkDocument (hstore : ctx.store.IsRegular) {v : Visit}
    {visit visit' : StoredDocument → String → String → Linkage → Step Document.Entries}
    (hvisit : PairsBelow ctx nested flat v visit visit') :
    PairedSteps ctx nested flat (fun s => ∀ name, Unmet (v.path ++ "/" ++ name) s) v.path
      (GivesNested v.relation)
      (walkDocument (ctx.inMode .nest) visit v.document v.relation v.depth v.collectionPath)
      (walkDocument (ctx.inMode .flatten) visit' v.document v.relation v.depth v.collectionPath) := by
  intro records seen batches s s' h hfresh a t b t' hrun hrun'
  have hrun := Step.Runs.of_bind_of_runs (Step.runs_logRequest _ s) hrun
  have hrun' := Step.Runs.of_bind_of_runs (Step.runs_logRequest _ s') hrun'
  have h := h.requested (.list v.path)
  cases hlist : ctx.store.nestedCollections v.path with
  | error message =>
    have hmode (mode : Mode) : (ctx.inMode mode).store.nestedCollections
        (v.collectionPath ++ "/" ++ v.document.id) = .error message := hlist
    rw [hmode] at hrun hrun'
    have hrun := Step.Runs.of_bind_of_runs (Step.runs_updateResult _ _) hrun
    have hrun' := Step.Runs.of_bind_of_runs (Step.runs_updateResult _ _) hrun'
    obtain ⟨rfl, rfl⟩ := Step.Runs.of_pure hrun
    obtain ⟨rfl, rfl⟩ := Step.Runs.of_pure hrun'
    refine ⟨[], ⟨[], [], rfl, List.nodup_nil, [], rfl, .slnil, rfl⟩, ?_, .of_eq rfl⟩
    rw [List.append_nil]
    exact h.noted _ _ _
  | ok names =>
    have hmode (mode : Mode) : (ctx.inMode mode).store.nestedCollections
        (v.collectionPath ++ "/" ++ v.document.id) = .ok names := hlist
    rw [hmode] at hrun hrun'
    obtain ⟨entries, u, hwalk, hrun⟩ := hrun.of_bind
    obtain ⟨entries', u', hwalk', hrun'⟩ := hrun'.of_bind
    obtain ⟨rfl, rfl⟩ := Step.Runs.of_pure hrun
    obtain ⟨rfl, rfl⟩ := Step.Runs.of_pure hrun'
    have hnodup := Store.nodup_nestedCollections hlist
    have hslash : ∀ name ∈ names, '/' ∉ name.toList := by
      intro name hname
      unfold Store.nestedCollections at hlist
      split at hlist
      · cases hlist
      · cases hlist
        exact Visit.slash_not_mem_of_mem_nested hname
    obtain ⟨new, hgives, hpaired, hmeets⟩ := paired_walkCollections hstore hvisit hslash hnodup h
      (fun name _ => hfresh name) hwalk hwalk'
    exact ⟨new, ⟨entries, names, rfl, hnodup, hgives⟩, hpaired, hmeets.kept, hmeets.new⟩

/-- The record of a document with what is nested in it, before it is written itself. -/
def nestedRecord (ctx : Context) : Nat → Visit → Step Document.Entries
  | 0, v => pure v.record
  | levels + 1, v => do
    let below (child : StoredDocument) (relation path : String) (l : Linkage) :=
      exportDocument ctx levels child relation (v.depth + 1) path (some l)
    let nested ← walkDocument ctx below v.document v.relation v.depth v.collectionPath
    return v.record.set subcollectionsField nested

/-- Only the documents of the exported collection are written with what is nested in them. -/
theorem exportDocument_inMode_nest (n : Nat) (v : Visit) :
    exportDocument (ctx.inMode .nest) n v.document v.relation v.depth v.collectionPath v.linkage = do
      let record ← nestedRecord (ctx.inMode .nest) n v
      if v.depth = 0 then
        let _ ← writeRecord (ctx.inMode .nest) v.relation record
          (documentKey ctx v.relation v.collectionPath v.document) v.depth
      return record := by
  cases n with
  | zero =>
    have hmode : v.depth = 0 ∨ (ctx.inMode .nest).settings.mode = .flatten ↔ v.depth = 0 :=
      or_iff_left fun h => nomatch h
    rw [nestedRecord, pure_bind, exportDocument]
    simp only [hmode]
    rfl
  | succ n =>
    rw [nestedRecord, exportDocument, bind_assoc]
    simp only [pure_bind]
    rfl

theorem paired_writeRecord (hstore : ctx.store.IsRegular) (hhooks : ctx.hooks = []) {v : Visit}
    (hr : sanitize v.relation = v.relation) {records : List Document.Entries}
    {seen : List (String × String)} {batches : Batches} {s s' t' : State} {b : Bool}
    (h : Paired ctx nested flat records seen batches s s') (hfresh : Unmet v.path s')
    (hrun : Step.Runs (writeRecord (ctx.inMode .flatten) v.relation v.record
      (documentKey (ctx.inMode .flatten) v.relation v.collectionPath v.document) v.depth) s' b t') :
    b = true ∧ Meets v.path s' t' ∧ (∀ name, Unmet (v.path ++ "/" ++ name) t') ∧
      ∃ j, (Document.Value.map v.record).toJson = .ok j ∧
        Paired ctx nested flat records seen (batches ++ [(v.relation, [settled j])]) s t' := by
  have hkey : documentKey (ctx.inMode .flatten) v.relation v.collectionPath v.document = v.path := by
    have hattached : (ctx.inMode .flatten).store.pathless = false := hstore.attached
    rw [documentKey, hattached, if_neg Bool.false_ne_true]
    rfl
  rw [hkey] at hrun
  obtain ⟨hb, hseen, hwritten⟩ := h.writeFlat hhooks hr
    (fun hmem => hfresh _ hmem (within_self v.path)) hrun
  refine ⟨hb, ⟨fun k hk => ?_, fun k hk => ?_⟩, fun name k hk => ?_, hwritten⟩
  · rw [hseen]
    exact List.mem_cons_of_mem _ hk
  · rw [hseen] at hk
    rcases List.mem_cons.1 hk with rfl | hk
    · exact .inr (within_self v.path)
    · exact .inl hk
  · rw [hseen] at hk
    rcases List.mem_cons.1 hk with rfl | hk
    · exact not_within_below v.path name
    · exact hfresh.below k hk

theorem paired_nestedRecord (hstore : ctx.store.IsRegular) (hhooks : ctx.hooks = []) (n : Nat)
    {v : Visit} (hv : v.document ∈ ctx.store.documents v.collectionPath)
    (hr : sanitize v.relation = v.relation) :
    PairedSteps ctx nested flat (Unmet v.path) v.path (GivesRecord v.relation)
      (nestedRecord (ctx.inMode .nest) n v)
      (exportDocument (ctx.inMode .flatten) n v.document v.relation v.depth v.collectionPath
        v.linkage) := by
  induction n generalizing v with
  | zero =>
    have hplain := hstore.plainFields _ _ hv
    intro records seen batches s s' h hfresh a t b t' hrun hrun'
    obtain ⟨rfl, rfl⟩ := Step.Runs.of_pure hrun
    have hmode : v.depth = 0 ∨ (ctx.inMode .flatten).settings.mode = .flatten := .inr rfl
    rw [exportDocument] at hrun'
    dsimp only at hrun'
    rw [if_pos hmode] at hrun'
    obtain ⟨_, u', hwrite, hrun'⟩ := hrun'.of_bind
    obtain ⟨rfl, rfl⟩ := Step.Runs.of_pure hrun'
    obtain ⟨-, hmeets, -, j, hj, hpaired⟩ := paired_writeRecord hstore hhooks hr h hfresh hwrite
    exact ⟨_, ⟨j, hj, (unnest_baseRecord hplain hj).symm⟩, hpaired, hmeets⟩
  | succ n ih =>
    have hbelow : PairsBelow ctx nested flat v
        (fun child relation path l =>
          exportDocument (ctx.inMode .nest) n child relation (v.depth + 1) path (some l))
        (fun child relation path l =>
          exportDocument (ctx.inMode .flatten) n child relation (v.depth + 1) path (some l)) := by
      intro name d hd path records seen batches s s' h hfresh a t b t' hrun hrun'
      change Step.Runs (exportDocument (ctx.inMode .nest) n (v.child name d).document
        (v.child name d).relation (v.child name d).depth (v.child name d).collectionPath
        (v.child name d).linkage) s a t at hrun
      have hdeep : ¬(v.child name d).depth = 0 := Nat.succ_ne_zero v.depth
      rw [exportDocument_inMode_nest] at hrun
      obtain ⟨record, u, hrecord, hrun⟩ := hrun.of_bind
      rw [if_neg hdeep] at hrun
      obtain ⟨rfl, rfl⟩ := Step.Runs.of_pure hrun
      exact @ih (v.child name d) hd (Steady.sanitize_nestedRelation _ _) _ _ _ _ _ h hfresh _ _ _ _
        hrecord hrun'
    have hplain := hstore.plainFields _ _ hv
    intro records seen batches s s' h hfresh a t b t' hrun hrun'
    rw [exportDocument] at hrun'
    obtain ⟨_, u', hwrite, hrun'⟩ := hrun'.of_bind
    obtain ⟨rfl, hmeets, hfresh', j, hj, hpaired⟩ :=
      paired_writeRecord hstore hhooks hr h hfresh hwrite
    rw [if_pos rfl] at hrun'
    obtain ⟨_, u₁', hwalk', hrun'⟩ := hrun'.of_bind
    obtain ⟨rfl, rfl⟩ := Step.Runs.of_pure hrun'
    obtain ⟨value, u, hwalk, hrun⟩ := hrun.of_bind
    obtain ⟨rfl, rfl⟩ := Step.Runs.of_pure hrun
    obtain ⟨new, ⟨entries, names, rfl, hnodup, gs, hgs, hsub, rfl⟩, hpaired', hmeets'⟩ :=
      paired_walkDocument hstore hbelow hpaired hfresh' hwalk hwalk'
    obtain ⟨j', hj', hunnest⟩ := @unnest_baseRecord_set _ v.relation _ _ hplain _ _ hj hgs
      (hsub.nodup hnodup)
    refine ⟨_, ⟨j', hj', rfl⟩, ?_, hmeets.trans hmeets'⟩
    rw [hunnest]
    simpa using hpaired'

/-! The documents of the exported collection. -/

/-- One export has written nested records, and the other one all that they hold. -/
def Aligned (ctx : Context) (nested flat : Session) (records : List Document.Entries) (s s' : State) :
    Prop :=
  ∃ seen, Paired ctx nested flat records seen
    (records.flatMap fun record => unnest ctx.rootRelation (readBack (.map record))) s s'

/-- Neither export has met any of some documents of the exported collection. -/
def Fresh (ctx : Context) (ds : List StoredDocument) (s s' : State) : Prop :=
  ∀ d ∈ ds, Unmet (ctx.settings.collection ++ "/" ++ d.id) s ∧
    Unmet (ctx.settings.collection ++ "/" ++ d.id) s'

/-- Documents of the exported collection with ids of their own. -/
structure AreRoots (ctx : Context) (ds : List StoredDocument) : Prop where
  stored : ∀ d ∈ ds, d ∈ ctx.store.documents ctx.settings.collection
  distinct : ds.Pairwise (·.id ≠ ·.id)

theorem AreRoots.tail {d : StoredDocument} {ds : List StoredDocument} (h : AreRoots ctx (d :: ds)) :
    AreRoots ctx ds :=
  ⟨fun d' hd' => h.stored d' (List.mem_cons_of_mem d hd'), (List.pairwise_cons.1 h.distinct).2⟩

/-- The export of a document of the exported collection. -/
def exportRoot (ctx : Context) (mode : Mode) (d : StoredDocument) : Step Document.Entries :=
  exportDocument (ctx.inMode mode) (levels ctx.settings) d ctx.rootRelation 0 ctx.settings.collection
    none

theorem aligned_exportRoot (hstore : ctx.store.IsRegular) (hhooks : ctx.hooks = [])
    {d : StoredDocument} {others : List StoredDocument} (hroots : AreRoots ctx (d :: others))
    {records : List Document.Entries} {s s' t t' : State} {record b : Document.Entries}
    (h : Aligned ctx nested flat records s s') (hfresh : Fresh ctx (d :: others) s s')
    (hrun : Step.Runs (exportRoot ctx .nest d) s record t)
    (hrun' : Step.Runs (exportRoot ctx .flatten d) s' b t') :
    (∃ records', Aligned ctx nested flat records' t t') ∧ Fresh ctx others t t' := by
  let v := Visit.root ctx.settings.collection d
  have hr : sanitize v.relation = v.relation := BackendMigration.Relation.sanitize_sanitize _
  have hkey : documentKey ctx v.relation v.collectionPath v.document = v.path := by
    rw [documentKey, hstore.attached, if_neg Bool.false_ne_true]
    rfl
  obtain ⟨seen, hpaired⟩ := h
  obtain ⟨hunmet, hunmet'⟩ := hfresh d List.mem_cons_self
  change Step.Runs (exportDocument (ctx.inMode .nest) (levels ctx.settings) v.document v.relation
    v.depth v.collectionPath v.linkage) s record t at hrun
  rw [exportDocument_inMode_nest] at hrun
  obtain ⟨_, u, hrecord, hrun⟩ := hrun.of_bind
  have hdepth : v.depth = 0 := rfl
  rw [if_pos hdepth, hkey] at hrun
  obtain ⟨written, u₁, hwrite, hrun⟩ := hrun.of_bind
  obtain ⟨rfl, rfl⟩ := Step.Runs.of_pure hrun
  obtain ⟨new, ⟨j, hj, rfl⟩, hpaired', hmeets⟩ := paired_nestedRecord hstore hhooks
    (levels ctx.settings) (v := v) (hroots.stored d List.mem_cons_self) hr hpaired hunmet' hrecord
    hrun'
  have hnew : (ctx.rootRelation, v.path) ∉ seen := by
    rw [← hpaired.seen]
    exact fun hmem => hunmet _ hmem (within_self v.path)
  have hend := hpaired'.writeNested hhooks hnew hwrite
  have hread : readBack (.map record) = settled j := by
    rw [readBack, hj]
    rfl
  refine ⟨⟨records ++ [record], (ctx.rootRelation, v.path) :: seen, ?_⟩, fun d' hd' => ?_⟩
  · rw [List.flatMap_append, List.flatMap_singleton, hread]
    exact hend
  · obtain ⟨hother, hother'⟩ := hfresh d' (List.mem_cons_of_mem d hd')
    have hne : d.id ≠ d'.id := (List.pairwise_cons.1 hroots.distinct).1 d' hd'
    have hid := hstore.plainIds _ d (hroots.stored d List.mem_cons_self)
    have hid' := hstore.plainIds _ d' (hroots.stored d' (List.mem_cons_of_mem d hd'))
    have hmet : Meets v.path s t := by
      constructor
      · rw [hend.seen, hpaired.seen]
        exact fun k hk => List.mem_cons_of_mem _ hk
      · rw [hend.seen, hpaired.seen]
        intro k hk
        rcases List.mem_cons.1 hk with rfl | hk
        · exact .inr (within_self v.path)
        · exact .inl hk
    exact ⟨hmet.unmet_below hother hne hid hid', hmeets.unmet_below hother' hne hid hid'⟩

theorem of_runs_forIn {f : StoredDocument → Step α} {d : StoredDocument} {ds : List StoredDocument}
    {s t : State} {r : PUnit}
    (h : Step.Runs (forIn (d :: ds) PUnit.unit fun a _ => do
      let _ ← f a
      pure (ForInStep.yield PUnit.unit)) s r t) :
    ∃ a u, Step.Runs (f d) s a u ∧ Step.Runs (forIn ds PUnit.unit fun a _ => do
      let _ ← f a
      pure (ForInStep.yield PUnit.unit)) u r t := by
  rw [List.forIn_cons, bind_assoc] at h
  obtain ⟨a, u, hfirst, h⟩ := h.of_bind
  rw [pure_bind] at h
  exact ⟨a, u, hfirst, h⟩

theorem aligned_forIn (hstore : ctx.store.IsRegular) (hhooks : ctx.hooks = [])
    {ds others : List StoredDocument} (hroots : AreRoots ctx (ds ++ others))
    {records : List Document.Entries} {s s' t t' : State} {a b : PUnit}
    (h : Aligned ctx nested flat records s s') (hfresh : Fresh ctx (ds ++ others) s s')
    (hrun : Step.Runs (forIn ds PUnit.unit fun d _ => do
      let _ ← exportRoot ctx .nest d
      pure (ForInStep.yield PUnit.unit)) s a t)
    (hrun' : Step.Runs (forIn ds PUnit.unit fun d _ => do
      let _ ← exportRoot ctx .flatten d
      pure (ForInStep.yield PUnit.unit)) s' b t') :
    (∃ records', Aligned ctx nested flat records' t t') ∧ Fresh ctx others t t' := by
  induction ds generalizing records s s' with
  | nil =>
    obtain ⟨-, rfl⟩ := Step.Runs.of_pure hrun
    obtain ⟨-, rfl⟩ := Step.Runs.of_pure hrun'
    exact ⟨⟨_, h⟩, hfresh⟩
  | cons d rest ih =>
    obtain ⟨_, u, hfirst, hrun⟩ := of_runs_forIn hrun
    obtain ⟨_, u', hfirst', hrun'⟩ := of_runs_forIn hrun'
    obtain ⟨⟨records', h⟩, hfresh⟩ :=
      aligned_exportRoot hstore hhooks hroots h hfresh hfirst hfirst'
    exact ih hroots.tail h hfresh hrun hrun'

theorem drop_eq_of_fetch {store : Store} {path : String} {limit offset : Nat}
    {batch : List StoredDocument} (h : store.fetch path limit offset = .ok batch) :
    (store.documents path).drop offset =
      batch ++ (store.documents path).drop (offset + batch.length) := by
  unfold Store.fetch at h
  split at h
  · cases h
  · cases h
    rw [← List.drop_drop]
    exact (List.prefix_iff_eq_append.1 (List.take_prefix limit _)).symm

theorem aligned_exportBatches (hstore : ctx.store.IsRegular) (hhooks : ctx.hooks = [])
    {batches offset : Nat} {records : List Document.Entries} {s s' t t' : State} {a b : Unit}
    (h : Aligned ctx nested flat records s s')
    (hfresh : Fresh ctx ((ctx.store.documents ctx.settings.collection).drop offset) s s')
    (hrun : Step.Runs (exportBatches (ctx.inMode .nest) ctx.rootRelation batches offset) s a t)
    (hrun' : Step.Runs (exportBatches (ctx.inMode .flatten) ctx.rootRelation batches offset) s' b t') :
    ∃ records', Aligned ctx nested flat records' t t' := by
  induction batches generalizing offset records s s' with
  | zero =>
    obtain ⟨-, rfl⟩ := Step.Runs.of_pure hrun
    obtain ⟨-, rfl⟩ := Step.Runs.of_pure hrun'
    exact ⟨_, h⟩
  | succ batches ih =>
    obtain ⟨seen, hpaired⟩ := h
    rw [exportBatches] at hrun hrun'
    have hrun := Step.Runs.of_bind_of_runs (Step.runs_isCancelled hpaired.goes) hrun
    have hrun' := Step.Runs.of_bind_of_runs (Step.runs_isCancelled hpaired.goes') hrun'
    dsimp only at hrun hrun'
    have hsettings (mode : Mode) : (ctx.inMode mode).store = ctx.store ∧
        (ctx.inMode mode).settings.collection = ctx.settings.collection ∧
        (ctx.inMode mode).settings.limit = ctx.settings.limit ∧
        (ctx.inMode mode).settings.batchSize = ctx.settings.batchSize := ⟨rfl, rfl, rfl, rfl⟩
    simp only [hsettings, Bool.false_eq_true, if_false] at hrun hrun'
    generalize (if ctx.settings.limit = 0 then ctx.settings.batchSize
      else min ctx.settings.batchSize (ctx.settings.limit - offset)) = size at hrun hrun'
    by_cases hsize : size = 0
    · rw [if_pos hsize] at hrun hrun'
      obtain ⟨-, rfl⟩ := Step.Runs.of_pure hrun
      obtain ⟨-, rfl⟩ := Step.Runs.of_pure hrun'
      exact ⟨_, seen, hpaired⟩
    · rw [if_neg hsize] at hrun hrun'
      have hrun := Step.Runs.of_bind_of_runs (Step.runs_logRequest _ s) hrun
      have hrun' := Step.Runs.of_bind_of_runs (Step.runs_logRequest _ s') hrun'
      have hpaired := hpaired.requested (.fetch ctx.settings.collection size offset)
      cases hfetch : ctx.store.fetch ctx.settings.collection size offset with
      | error message =>
        rw [hfetch] at hrun hrun'
        obtain ⟨-, rfl⟩ := (Step.runs_updateResult _ _).eq hrun
        obtain ⟨-, rfl⟩ := (Step.runs_updateResult _ _).eq hrun'
        exact ⟨_, seen, hpaired.noted _ _ _⟩
      | ok batch =>
        rw [hfetch] at hrun hrun'
        cases batch with
        | nil =>
          obtain ⟨-, rfl⟩ := Step.Runs.of_pure hrun
          obtain ⟨-, rfl⟩ := Step.Runs.of_pure hrun'
          exact ⟨_, seen, hpaired⟩
        | cons d rest =>
          obtain ⟨_, u, hbatch, hrun⟩ := hrun.of_bind
          obtain ⟨_, u', hbatch', hrun'⟩ := hrun'.of_bind
          have hroots : AreRoots ctx ((ctx.store.documents ctx.settings.collection).drop offset) :=
            ⟨fun _ => List.mem_of_mem_drop, (hstore.distinctIds _).drop⟩
          rw [drop_eq_of_fetch hfetch] at hroots hfresh
          obtain ⟨⟨records', h⟩, hfresh⟩ := aligned_forIn hstore hhooks hroots ⟨seen, hpaired⟩ hfresh
            hbatch hbatch'
          exact ih h hfresh hrun hrun'

end walk

theorem aligned_initial (ctx : Context) (nested flat : Session)
    (hnested : nested.cancellation = .never) (hflat : flat.cancellation = .never) :
    Aligned ctx nested flat [] (.initial (ctx.inMode .nest).settings ctx.period nested)
      (.initial (ctx.inMode .flatten).settings ctx.period flat) := by
  refine ⟨[], rfl, rfl, hnested, hflat, rfl, ⟨[], accounts_initial _ _ _, rfl⟩, List.mem_cons_self,
    ⟨[], ⟨[], accounts_initial _ _ _, rfl⟩, rfl⟩, fun r => ?_⟩
  exact ⟨fun h => .inl (List.mem_singleton.1 h), fun h => List.mem_singleton.2
    (h.resolve_right List.not_mem_nil)⟩

/-- Two exports have the same data: one in the records of one relation, the other one in relations of
their own. They make the same requests, and note the same errors. -/
structure Outcome.Unnests (relation : String) (nested flat : Session) (o o' : Outcome)
    (result result' : Result) : Prop where
  requests : o.requests = o'.requests
  errors : result.errors = result'.errors
  data : ∃ records, Relation.read o.session.files (nested.writer.path relation) = .ok records ∧
    let batches : Batches := records.flatMap (unnest relation)
    (∀ r, r ∈ Keyed.keys result'.relations ↔ r = relation ∨ r ∈ batches.relations) ∧
    ∀ r ∈ Keyed.keys result'.relations,
      Relation.read o'.session.files (flat.writer.path r) = .ok (batches.recordsOf r)

theorem export_unnests {e : Exporter} {order order' : Order} {settings : Settings}
    (period : Time.Period) {nested flat : Session} {result result' : Result}
    (ho : order.settings = .ok { settings with mode := .nest })
    (ho' : order'.settings = .ok { settings with mode := .flatten }) (hstore : e.store.IsRegular)
    (hhooks : e.hooks = []) (hnested : nested.cancellation = .never)
    (hflat : flat.cancellation = .never)
    (hresult : (e.export order period nested).result = .ok result)
    (hresult' : (e.export order' period flat).result = .ok result') :
    Outcome.Unnests (sanitize settings.collection) nested flat (e.export order period nested)
      (e.export order' period flat) result result' := by
  let ctx : Context := ⟨e.store, e.hooks, settings, period⟩
  obtain ⟨hrun, hrequests, herrors⟩ := Exporter.runs_of_result ho hresult
  obtain ⟨hrun', hrequests', herrors'⟩ := Exporter.runs_of_result ho' hresult'
  have hinitial := aligned_initial ctx nested flat hnested hflat
  have hfresh : Fresh ctx ((e.store.documents settings.collection).drop 0)
      (.initial (ctx.inMode .nest).settings period nested)
      (.initial (ctx.inMode .flatten).settings period flat) :=
    fun d _ => ⟨fun k hk => (nomatch hk), fun k hk => (nomatch hk)⟩
  obtain ⟨records, seen, hpaired⟩ :=
    aligned_exportBatches hstore hhooks hinitial hfresh hrun hrun'
  obtain ⟨attempts, haccounts, hwritten⟩ := hpaired.nested
  obtain ⟨_, ⟨attempts', haccounts', rfl⟩, hwritten'⟩ := hpaired.flat
  obtain ⟨hcomplete, -⟩ := exists_complete_of_isClosed ho (Outcome.isClosed_of_ok hresult) haccounts
  obtain ⟨hcomplete', hkeys'⟩ :=
    exists_complete_of_isClosed ho' (Outcome.isClosed_of_ok hresult') haccounts'
  obtain ⟨-, base, place, -, -, hfinished⟩ := hcomplete
  obtain ⟨-, base', place', -, -, hfinished'⟩ := hcomplete'
  refine ⟨?_, ?_, records.map fun record => readBack (.map record), ?_, fun r => ?_, fun r hr => ?_⟩
  · rw [hrequests, hrequests', hpaired.requests]
  · rw [herrors, herrors', hpaired.errors]
  · refine (hfinished.read _ hpaired.begun).trans (congrArg Except.ok ?_)
    rw [Log.writtenTo, hwritten]
    simp [List.filter_map, Function.comp_def]
  · rw [(hkeys' result' hresult').1, List.flatMap_map]
    exact hpaired.relations r
  · rw [(hkeys' result' hresult').1] at hr
    refine (hfinished'.read r hr).trans (congrArg Except.ok ?_)
    have hrecords := congrArg (fun entries => (entries.filter (·.1 == r)).map (·.2)) hwritten'
    rw [List.flatMap_map, Batches.recordsOf_eq]
    refine Eq.trans ?_ hrecords
    simp [Log.writtenTo, List.filter_map, Function.comp_def]

/-- Two documents, each with an order of the same id. -/
def Store.withEqualOrders (pathless : Bool) : Store where
  collections := [("u", [⟨"a", []⟩, ⟨"b", []⟩]), ("u/a/o", [⟨"1", []⟩]), ("u/b/o", [⟨"1", []⟩])]
  distinct := by decide
  pathless

theorem Store.isRegular_withEqualOrders : (Store.withEqualOrders false).IsRegular where
  attached := rfl
  ids := by decide
  distinct := by decide
  fields := by
    have hempty : ∀ c ∈ (Store.withEqualOrders false).collections, ∀ d ∈ c.2, d.entries.isEmpty := by
      decide
    intro c hc d hd e he
    rw [List.isEmpty_iff.1 (hempty c hc d hd)] at he
    exact absurd he List.not_mem_nil

/-- The export of `u` in a store, with what is nested in it. -/
def exportBelow (store : Store) (mode : Mode) : Outcome :=
  (Exporter.mk store []).export
    { collection := "u", includeSubcollections := true, mode := .text mode.name }
    ⟨⟨⟨2024, 5, 1⟩, {}, some 0⟩, ⟨⟨2024, 5, 1⟩, {}, some 0⟩⟩
    ⟨⟨⟨false, []⟩, none, [], false⟩, .empty, .never⟩

theorem export_unnests_withEqualOrders :
    let store := Store.withEqualOrders false
    ∃ result result', (exportBelow store .nest).result = .ok result ∧
      (exportBelow store .flatten).result = .ok result' ∧
      Outcome.Unnests "u" ⟨⟨⟨false, []⟩, none, [], false⟩, .empty, .never⟩
        ⟨⟨⟨false, []⟩, none, [], false⟩, .empty, .never⟩ (exportBelow store .nest)
        (exportBelow store .flatten) result result' := by
  intro store
  have hnested : (exportBelow store .nest).result.isOk = true := by decide +kernel
  have hflat : (exportBelow store .flatten).result.isOk = true := by decide +kernel
  have hexists {o : Outcome} (h : o.result.isOk = true) : ∃ result, o.result = .ok result := by
    cases hr : o.result with
    | ok result => exact ⟨result, rfl⟩
    | error e =>
      rw [hr] at h
      cases h
  obtain ⟨result, hresult⟩ := hexists hnested
  obtain ⟨result', hresult'⟩ := hexists hflat
  have hu : sanitize "u" = "u" := by decide
  have h := @export_unnests ⟨store, []⟩ _ _
    ⟨"u", 1000, 0, true, 3, 100, .nest, by decide⟩ _ _ _ _ _ rfl rfl
    Store.isRegular_withEqualOrders rfl rfl rfl hresult hresult'
  rw [hu] at h
  exact ⟨result, result', hresult, hresult', h⟩

/-- Two documents whose ids have slashes, each with a document of the same path. -/
def Store.withSlashedIds : Store where
  collections := [("u", [⟨"x", []⟩, ⟨"x/o/y", []⟩]), ("u/x/o", [⟨"y/o/z", []⟩]),
    ("u/x/o/y/o", [⟨"z", []⟩])]
  distinct := by decide

/-- What counts as met before is left out, and what is nested in it not asked for, only where documents
have relations of their own: an order of the same id as another one if documents do not know their
paths, and a document of the same path if ids have slashes. -/
theorem exportBelow_skips :
    let counts (store : Store) := (exportBelow store .flatten).result.toOption.map Result.counts
    let requests (store : Store) (mode : Mode) := (exportBelow store mode).requests.length
    let shared := Store.withEqualOrders true
    let slashed := Store.withSlashedIds
    counts shared = some [("u", 2), ("u_o", 1)] ∧
      requests shared .flatten = 7 ∧ requests shared .nest = 8 ∧
      counts slashed = some [("u", 2), ("u_o", 1)] ∧
      requests slashed .flatten = 7 ∧ requests slashed .nest = 8 := by
  decide +kernel

end BackendMigration.Export
