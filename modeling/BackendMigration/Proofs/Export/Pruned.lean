import BackendMigration.Export.Action
import BackendMigration.Proofs.Export.Enumeration
import BackendMigration.Proofs.Export.Mirror
import BackendMigration.Proofs.Export.Outcome

/-! An export of a store whose requests fail in places is an export of what the failures leave. -/
namespace BackendMigration.Export

namespace Store

/-- What an export of a collection can come by: a collection whose fetch does not fail and that is
the exported one or not right below a document whose listing fails. -/
def keeps (store : Store) (collection path : String) : Bool :=
  path ∉ store.failingFetches &&
    (path == collection || store.failingListings.all fun d => (nestedName? d path).isNone)

/-- The store without failures, and without the collections that they keep from an export. -/
def pruned (store : Store) (collection : String) : Store where
  collections := store.collections.filter fun c => store.keeps collection c.1
  distinct := (List.filter_sublist.map _).nodup store.distinct
  pathless := store.pathless

variable {store : Store} {collection d path : String}

theorem documents_pruned (store : Store) (collection path : String) :
    (store.pruned collection).documents path =
      if store.keeps collection path then store.documents path else [] := by
  have hfind : (store.collections.filter fun c => store.keeps collection c.1).find? (·.1 == path) =
      if store.keeps collection path then store.collections.find? (·.1 == path) else none := by
    rw [List.find?_filter]
    split
    · congr 1
      funext c
      grind
    · rw [List.find?_eq_none]
      grind
  unfold documents Keyed.get? pruned
  dsimp only
  rw [hfind]
  split <;> rfl

theorem fetch_eq_ok (h : path ∉ store.failingFetches) (limit offset : Nat) :
    store.fetch path limit offset = .ok (((store.documents path).drop offset).take limit) :=
  if_neg h

theorem fetch_eq_error (h : path ∈ store.failingFetches) (limit offset : Nat) :
    store.fetch path limit offset = .error ("unavailable: " ++ path) :=
  if_pos h

theorem nestedCollections_eq_ok (h : d ∉ store.failingListings) :
    store.nestedCollections d = .ok ((Keyed.keys store.collections).filterMap (nestedName? d)) :=
  if_neg h

theorem nestedCollections_eq_error (h : d ∈ store.failingListings) :
    store.nestedCollections d = .error ("permission denied listing " ++ d) :=
  if_pos h

/-- A collection that is kept is fetched as before. -/
theorem fetch_pruned (h : store.keeps collection path = true) (limit offset : Nat) :
    (store.pruned collection).fetch path limit offset = store.fetch path limit offset := by
  have hnot : path ∉ store.failingFetches := by
    simp only [keeps, Bool.and_eq_true, decide_eq_true_eq] at h
    exact h.1
  rw [fetch_eq_ok List.not_mem_nil, fetch_eq_ok hnot, documents_pruned, if_pos h]

/-- Of a collection whose fetch fails there is nothing left. -/
theorem fetch_pruned_of_failing (h : path ∈ store.failingFetches) (limit offset : Nat) :
    (store.pruned collection).fetch path limit offset = .ok [] := by
  have hkeeps : store.keeps collection path = false := by simp [keeps, h]
  rw [fetch_eq_ok List.not_mem_nil, documents_pruned, hkeeps]
  simp

theorem path_eq_of_nestedName? {name : String} (h : nestedName? d path = some name) :
    path = d ++ "/" ++ name := by
  refine String.toList_injective ?_
  rw [nestedName?_eq_some h]
  simp

/-- Right below a document whose listing does not fail, the collections with a failing fetch are
lost. -/
theorem keeps_of_nestedName? {name : String} (hd : d ∉ store.failingListings)
    (h : nestedName? d path = some name) :
    store.keeps collection path = decide (d ++ "/" ++ name ∉ store.failingFetches) := by
  have hall : (store.failingListings.all fun d' => (nestedName? d' path).isNone) = true := by
    refine List.all_eq_true.2 fun d' hd' => ?_
    cases h' : nestedName? d' path with
    | none => rfl
    | some name' =>
      rw [← eq_of_nestedName? h h'] at hd'
      exact absurd hd' hd
  rw [keeps, hall, ← path_eq_of_nestedName? h]
  simp

theorem not_keeps_of_nestedName? {name : String} (hd : d ∈ store.failingListings)
    (h : nestedName? d path = some name) (hp : path ≠ collection) :
    store.keeps collection path = false := by
  have hall : (store.failingListings.all fun d' => (nestedName? d' path).isNone) = false := by
    refine List.all_eq_false.2 ⟨d, hd, ?_⟩
    simp [h]
  simp [keeps, hall, hp]

theorem keys_pruned (store : Store) (collection : String) :
    Keyed.keys (store.pruned collection).collections =
      (Keyed.keys store.collections).filter (store.keeps collection) := by
  rw [Keyed.keys, Keyed.keys, List.filter_map]
  rfl

/-- What is listed below a document whose listing does not fail. -/
theorem nestedCollections_pruned (hd : d ∉ store.failingListings) :
    (store.pruned collection).nestedCollections d =
      .ok (((Keyed.keys store.collections).filterMap (nestedName? d)).filter
        fun name => d ++ "/" ++ name ∉ store.failingFetches) := by
  rw [nestedCollections_eq_ok List.not_mem_nil, keys_pruned, List.filterMap_filter,
    List.filter_filterMap]
  congr 2
  funext path
  cases h : nestedName? d path with
  | none => simp
  | some name =>
    rw [keeps_of_nestedName? hd h]
    simp [Option.filter]

/-- Nothing is left to list below a document whose listing fails. -/
theorem nestedCollections_pruned_of_failing (hd : d ∈ store.failingListings)
    (hc : nestedName? d collection = none) :
    (store.pruned collection).nestedCollections d = .ok [] := by
  rw [nestedCollections_eq_ok List.not_mem_nil, keys_pruned, List.filterMap_filter]
  congr 1
  refine List.filterMap_eq_nil_iff.2 fun path _ => ?_
  cases h : nestedName? d path with
  | none => simp
  | some name =>
    have hp : path ≠ collection := by
      rintro rfl
      rw [h] at hc
      cases hc
    rw [not_keeps_of_nestedName? hd h hp]
    rfl

end Store

/-- The context of an export of what failures leave. -/
def Context.pruned (ctx : Context) : Context :=
  { ctx with store := ctx.store.pruned ctx.settings.collection }

variable {ctx : Context}

/-- A path as long as that of the exported collection: no document above this collection has it. -/
def Reaches (ctx : Context) (path : String) : Prop :=
  ctx.settings.collection.toList.length ≤ path.toList.length

theorem Reaches.append {path : String} (h : Reaches ctx path) (rest : String) :
    Reaches ctx (path ++ rest) := by
  unfold Reaches at h ⊢
  rw [String.toList_append, List.length_append]
  omega

theorem Reaches.nestedName? {path : String} (h : Reaches ctx path) :
    Store.nestedName? path ctx.settings.collection = none := by
  cases hn : Store.nestedName? path ctx.settings.collection with
  | none => rfl
  | some name =>
    have hlength := congrArg List.length (Store.nestedName?_eq_some hn)
    rw [List.length_append, List.length_cons] at hlength
    unfold Reaches at h
    omega

/-- A step for each document below another one, in both exports. -/
def MirrorsBelow (ctx : Context) (v : Visit)
    (visit visit' : StoredDocument → String → String → Linkage → Step Document.Entries) : Prop :=
  ∀ (name : String) (d : StoredDocument),
    let path := v.path ++ "/" ++ name
    Step.Mirrors (Contained ctx.store)
      (visit d (nestedRelation v.relation name) path ⟨v.relation, v.document.id, path⟩)
      (visit' d (nestedRelation v.relation name) path ⟨v.relation, v.document.id, path⟩)

theorem mirrors_walkCollections {v : Visit} (hv : v.path ∉ ctx.store.failingListings)
    {visit visit' : StoredDocument → String → String → Linkage → Step Document.Entries}
    (hvisit : MirrorsBelow ctx v visit visit') {names : List String}
    (hnames : ∀ name ∈ names, Store.nestedName? v.path (v.path ++ "/" ++ name) = some name) :
    Step.Mirrors (Contained ctx.store)
      (walkCollections ctx visit v.document v.relation v.depth v.path names)
      (walkCollections ctx.pruned visit' v.document v.relation v.depth v.path
        (names.filter fun name => v.path ++ "/" ++ name ∉ ctx.store.failingFetches)) := by
  induction names with
  | nil => exact .pure _
  | cons name rest ih =>
    have ih := ih fun n hn => hnames n (List.mem_cons_of_mem name hn)
    rw [walkCollections]
    refine Contained.asked_left ?_
    dsimp only
    by_cases hfails : v.path ++ "/" ++ name ∈ ctx.store.failingFetches
    · rw [List.filter_cons_of_neg (by simpa using hfails), Store.fetch_eq_error hfails]
      exact Contained.failed_left (if_pos hfails) ih
    · have hkeeps : ctx.store.keeps ctx.settings.collection (v.path ++ "/" ++ name) = true :=
        (Store.keeps_of_nestedName? hv (hnames name List.mem_cons_self)).trans
          (decide_eq_true hfails)
      have hfetch : ctx.pruned.store.fetch (v.path ++ "/" ++ name)
          ctx.pruned.settings.subcollectionLimit 0 = _ :=
        (Store.fetch_pruned hkeeps _ _).trans (Store.fetch_eq_ok hfails _ _)
      rw [List.filter_cons_of_pos (by simpa using hfails), walkCollections]
      refine Contained.requested_left (if_neg hfails) (Contained.asked_right
        (Contained.requested_right ?_))
      rw [hfetch, Store.fetch_eq_ok hfails]
      dsimp only
      have hchildren := Step.Mirrors.mapM fun d (_ : d ∈ List.take ctx.settings.subcollectionLimit
        (List.drop 0 (ctx.store.documents (v.path ++ "/" ++ name)))) => hvisit name d
      have hrest := hchildren.bind fun records => ih.bind fun nested =>
        .pure ((Document.Value.text name, .list (records.map .map)) :: nested)
      have hmode : ctx.pruned.settings.mode = ctx.settings.mode := rfl
      rw [hmode]
      split
      · exact (Contained.updateResult (sparesErrors_ensure _ _ _)).bind fun _ => hrest
      · exact hrest

theorem mirrors_walkDocument {v : Visit} (hv : Reaches ctx v.path)
    {visit visit' : StoredDocument → String → String → Linkage → Step Document.Entries}
    (hvisit : MirrorsBelow ctx v visit visit') :
    Step.Mirrors (Contained ctx.store)
      (walkDocument ctx visit v.document v.relation v.depth v.collectionPath)
      (walkDocument ctx.pruned visit' v.document v.relation v.depth v.collectionPath) := by
  unfold walkDocument
  have hpath : v.collectionPath ++ "/" ++ v.document.id = v.path := rfl
  dsimp only
  rw [hpath]
  by_cases hfails : v.path ∈ ctx.store.failingListings
  · have hlist : ctx.pruned.store.nestedCollections v.path = _ :=
      Store.nestedCollections_pruned_of_failing hfails hv.nestedName?
    rw [hlist, Store.nestedCollections_eq_error hfails]
    exact Contained.requested_right (Contained.failed_left (if_pos hfails) (.pure _))
  · have hlist : ctx.pruned.store.nestedCollections v.path = _ :=
      Store.nestedCollections_pruned hfails
    rw [hlist, Store.nestedCollections_eq_ok hfails]
    refine Contained.requested_left (if_neg hfails) (Contained.requested_right ?_)
    refine Step.Mirrors.bind (mirrors_walkCollections hfails hvisit fun name hname => ?_)
      fun nested => .pure _
    obtain ⟨path, -, hn⟩ := List.mem_filterMap.1 hname
    rw [← Store.path_eq_of_nestedName? hn]
    exact hn

theorem mirrors_writeRecord (v : Visit) (record : Document.Entries) :
    Step.Mirrors (Contained ctx.store)
      (writeRecord ctx v.relation record (documentKey ctx v.relation v.collectionPath v.document)
        v.depth)
      (writeRecord ctx.pruned v.relation record
        (documentKey ctx.pruned v.relation v.collectionPath v.document) v.depth) :=
  Contained.writeRecord ctx v.relation record _ v.depth

theorem mirrors_exportDocument (n : Nat) {v : Visit} (hv : Reaches ctx v.collectionPath) :
    Step.Mirrors (Contained ctx.store)
      (exportDocument ctx n v.document v.relation v.depth v.collectionPath v.linkage)
      (exportDocument ctx.pruned n v.document v.relation v.depth v.collectionPath v.linkage) := by
  have hmode : ctx.pruned.settings.mode = ctx.settings.mode := rfl
  induction n generalizing v with
  | zero =>
    unfold exportDocument
    dsimp only
    rw [hmode]
    split
    · exact (mirrors_writeRecord v _).bind fun _ => .pure _
    · exact .pure _
  | succ n ih =>
    have hpath : Reaches ctx v.path := (hv.append "/").append v.document.id
    have hwalk : Step.Mirrors (Contained ctx.store)
        (walkDocument ctx (fun child relation path l =>
          exportDocument ctx n child relation (v.depth + 1) path (some l)) v.document v.relation
            v.depth v.collectionPath)
        (walkDocument ctx.pruned (fun child relation path l =>
          exportDocument ctx.pruned n child relation (v.depth + 1) path (some l)) v.document v.relation
            v.depth v.collectionPath) :=
      mirrors_walkDocument hpath fun name d => @ih (v.child name d) ((hpath.append "/").append name)
    unfold exportDocument
    dsimp only
    rw [hmode]
    split
    · refine hwalk.bind fun nested => ?_
      split
      · exact (mirrors_writeRecord v _).bind fun _ => .pure _
      · exact .pure _
    · refine (mirrors_writeRecord v _).bind fun written => ?_
      split
      · exact hwalk.bind fun _ => .pure _
      · exact .pure _

/-- Where the exported collection itself can be fetched, both exports go on batch by batch. -/
theorem mirrors_exportBatches (hfails : ctx.settings.collection ∉ ctx.store.failingFetches)
    (relation : String) (batches offset : Nat) : Step.Mirrors (Contained ctx.store)
      (exportBatches ctx relation batches offset) (exportBatches ctx.pruned relation batches offset) := by
  have hsettings : ctx.pruned.settings = ctx.settings := rfl
  have hkeeps : ctx.store.keeps ctx.settings.collection ctx.settings.collection = true := by
    simp [Store.keeps, hfails]
  induction batches generalizing offset with
  | zero => exact .pure _
  | succ batches ih =>
    unfold exportBatches
    refine Contained.asked_left (Contained.asked_right ?_)
    dsimp only
    rw [hsettings, if_neg Bool.false_ne_true, if_neg Bool.false_ne_true]
    generalize (if ctx.settings.limit = 0 then ctx.settings.batchSize
      else min ctx.settings.batchSize (ctx.settings.limit - offset)) = size
    split
    · exact .pure _
    · have hfetch : ctx.pruned.store.fetch ctx.settings.collection size offset = _ :=
        Store.fetch_pruned hkeeps size offset
      refine Contained.requested_left (if_neg hfails) (Contained.requested_right ?_)
      rw [hfetch, Store.fetch_eq_ok hfails]
      cases (List.take size (List.drop offset (ctx.store.documents ctx.settings.collection))) with
      | nil => exact .pure _
      | cons d rest =>
        have hdocument : ∀ d' ∈ d :: rest, Step.Mirrors (Contained ctx.store)
            (exportDocument ctx (levels ctx.settings) d' relation 0 ctx.settings.collection none)
            (exportDocument ctx.pruned (levels ctx.settings) d' relation 0 ctx.settings.collection
              none) := fun d' _ =>
          @mirrors_exportDocument ctx (levels ctx.settings)
            ⟨d', relation, 0, ctx.settings.collection, none⟩ (Nat.le_refl _)
        exact (Step.Mirrors.forIn hdocument).bind fun _ => ih _

/-- Where it cannot, one of them fails and the other one finds nothing. -/
theorem mirrors_exportBatches_of_failing
    (hfails : ctx.settings.collection ∈ ctx.store.failingFetches) (relation : String)
    (batches batches' offset : Nat) : Step.Mirrors (Contained ctx.store)
      (exportBatches ctx relation (batches + 1) offset)
      (exportBatches ctx.pruned relation (batches' + 1) offset) := by
  have hsettings : ctx.pruned.settings = ctx.settings := rfl
  unfold exportBatches
  refine Contained.asked_left (Contained.asked_right ?_)
  dsimp only
  rw [hsettings, if_neg Bool.false_ne_true, if_neg Bool.false_ne_true]
  generalize (if ctx.settings.limit = 0 then ctx.settings.batchSize
    else min ctx.settings.batchSize (ctx.settings.limit - offset)) = size
  split
  · exact .pure _
  · have hfetch : ctx.pruned.store.fetch ctx.settings.collection size offset = .ok [] :=
      Store.fetch_pruned_of_failing hfails size offset
    rw [hfetch, Store.fetch_eq_error hfails]
    refine Contained.requested_right ?_
    dsimp only
    rw [← bind_pure (noteError ctx _ _)]
    exact Contained.failed_left (if_pos hfails) (.pure _)

theorem mirrors_exportCollection (ctx : Context) (relation : String) :
    Step.Mirrors (Contained ctx.store) (exportCollection ctx relation)
      (exportCollection ctx.pruned relation) := by
  by_cases hfails : ctx.settings.collection ∈ ctx.store.failingFetches
  · exact mirrors_exportBatches_of_failing hfails relation _ _ 0
  · have hkeeps : ctx.store.keeps ctx.settings.collection ctx.settings.collection = true := by
      simp [Store.keeps, hfails]
    have hdocuments : ctx.pruned.store.documents ctx.pruned.settings.collection =
        ctx.store.documents ctx.settings.collection :=
      (Store.documents_pruned _ _ _).trans (if_pos hkeeps)
    unfold exportCollection
    rw [hdocuments]
    exact mirrors_exportBatches hfails relation _ 0

/-- The export of the same hooks from what failures leave. -/
def Exporter.pruned (e : Exporter) (collection : String) : Exporter :=
  { e with store := e.store.pruned collection }

/-- The outcome of an export beside that of an export of what its failures leave: it ends alike with
the same files, and its result has an error more for each request that failed. -/
structure Outcome.IsContained (store : Store) (o pruned : Outcome) : Prop where
  session : o.session = pruned.session
  failed : ∀ e, o.result = .error e ↔ pruned.result = .error e
  completed : ∀ result, o.result = .ok result → ∃ result' failures, pruned.result = .ok result' ∧
    result = { result' with errors := result.errors } ∧
    Joined result'.errors failures result.errors ∧
    failures.map (·.path) = failedPaths store o.requests

theorem Contained.ended {store : Store} {run run' : Except Relation.WriteError Unit × State}
    (h : run.1 = run'.1) (hs : Contained store run.2 run'.2) (period : Time.Period) :
    (Export.ended period run).IsContained store (Export.ended period run') := by
  obtain ⟨outcome, s⟩ := run
  obtain ⟨outcome', s'⟩ := run'
  obtain rfl : outcome = outcome' := h
  have hrelations : s.result.relations = s'.result.relations := by
    have h := congrArg Result.relations hs.result
    exact h
  have hcancellation : s.cancellation = s'.cancellation := hs.goes.trans hs.goes'.symm
  unfold Export.ended
  dsimp only at hs ⊢
  rw [hs.writer, hs.files, hrelations, hcancellation]
  rcases s'.writer.finalize s'.files (Keyed.keys s'.result.relations) with ⟨f | writer, files⟩
  · cases outcome <;> exact ⟨rfl, fun _ => .rfl, fun result hr => (nomatch hr)⟩
  · cases outcome with
    | error f => exact ⟨rfl, fun _ => .rfl, fun result hr => (nomatch hr)⟩
    | ok =>
      refine ⟨rfl, fun e => ⟨fun h => (nomatch h), fun h => (nomatch h)⟩, fun result hr => ?_⟩
      cases hr
      obtain ⟨failures, hjoined, hpaths⟩ := hs.failures
      refine ⟨_, failures, rfl, ?_, hjoined, hpaths⟩
      have hcompleted := congrArg (·.completed writer period.stop) hs.result
      exact hcompleted

theorem collection_of_settings {order : Order} {settings : Settings}
    (h : order.settings = .ok settings) : settings.collection = order.collection := by
  unfold Order.settings at h
  repeat' split at h
  all_goals cases h
  rfl

/-- Failures lose what they are about and nothing else. -/
theorem export_contains_failures (e : Exporter) (order : Order) (period : Time.Period)
    {session : Session} (h : session.cancellation = .never) :
    (e.export order period session).IsContained e.store
      ((e.pruned order.collection).export order period session) := by
  cases ho : order.settings with
  | error f =>
    rw [export_of_refused ho, export_of_refused ho]
    exact ⟨rfl, fun _ => .rfl, fun result hr => (nomatch hr)⟩
  | ok settings =>
    rw [Exporter.export_eq_ended ho, Exporter.export_eq_ended ho, Exporter.pruned,
      ← collection_of_settings ho]
    have hinitial : Contained e.store (.initial settings period session)
        (.initial settings period session) := ⟨rfl, rfl, rfl, h, h, [], .nil, rfl⟩
    obtain ⟨hresult, hstate⟩ := mirrors_exportCollection ⟨e.store, e.hooks, settings, period⟩
      (Relation.sanitize settings.collection) _ _ hinitial
    exact hstate.ended hresult period

/-- A store that does not list one document, and of the other one does not give the orders. -/
def Store.partlyFailing : Store where
  collections := [("u", [⟨"a", []⟩, ⟨"b", []⟩]), ("u/a/o", [⟨"x", []⟩]), ("u/b/o", [⟨"x", []⟩])]
  distinct := by decide
  failingFetches := ["u/b/o"]
  failingListings := ["u/a"]

/-- The exports of a collection and what is nested in it, where the records of a relation are written
to another one too. -/
def exportOf (store : Store) (collection : String) : Outcome :=
  (Exporter.mk store [("u", Hook.ofActions [.emitSelf "log"])]).export
    { collection, includeSubcollections := true }
    ⟨⟨⟨2024, 5, 1⟩, {}, some 0⟩, ⟨⟨2024, 5, 1⟩, {}, some 0⟩⟩
    ⟨⟨⟨false, []⟩, some 2, [], false⟩, .empty, .never⟩

theorem export_contains_failures_of_partlyFailing :
    failedPaths .partlyFailing (exportOf .partlyFailing "u").requests = [some "u/a", some "u/b/o"] ∧
      (exportOf .partlyFailing "u").IsContained .partlyFailing
        (exportOf (Store.partlyFailing.pruned "u") "u") :=
  ⟨by decide +kernel, export_contains_failures ⟨.partlyFailing, _⟩ _ _ rfl⟩

/-- The exported collection counts even where it lies right below a document whose listing fails. -/
theorem exportOf_below_failing :
    let counts (o : Outcome) := o.result.toOption.map Result.counts
    Store.nestedName? "u/a" "u/a/o" = some "o" ∧ "u/a" ∈ Store.partlyFailing.failingListings ∧
      counts (exportOf .partlyFailing "u/a/o") = some [("u_a_o", 1)] ∧
      counts (exportOf (.ofCollections [("u", [⟨"a", []⟩, ⟨"b", []⟩])] [] [] false) "u/a/o") =
        some [("u_a_o", 0)] := by
  decide +kernel

end BackendMigration.Export
