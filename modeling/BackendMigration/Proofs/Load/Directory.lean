import BackendMigration.Load.Loader
import BackendMigration.Proofs.Json.Reader
import BackendMigration.Proofs.Keyed

/-! What a loader sends when no request fails: every record of every file, once and in order. -/
namespace BackendMigration.Load

open Document (Value)

/-- No request fails any more. -/
def Connection.Succeeds (c : Connection) : Prop := ∀ reply ∈ c.replies, reply.failure? = none

theorem Connection.Succeeds.send {c : Connection} (h : c.Succeeds) (request : Request) :
    (c.send request).1.failure? = none ∧ (c.send request).2.Succeeds := by
  obtain ⟨replies, requests⟩ := c
  cases replies with
  | nil => exact ⟨rfl, h⟩
  | cons reply rest =>
    have hreply : reply.failure? = none := h reply List.mem_cons_self
    have hrest : ∀ reply ∈ rest, reply.failure? = none :=
      fun reply hr => h reply (List.mem_cons_of_mem _ hr)
    exact ⟨hreply, hrest⟩

/-- The records in the body of a request. -/
def Request.records? (r : Request) : Option (List Json) :=
  r.data.bind fun text =>
    match Json.read text.toList with
    | .ok (.arr records) => some records
    | _ => none

/-- A request posts records to an address. -/
def Request.postsTo (url : String) (r : Request) : Bool := r.method == .post && r.url == url

theorem chunks_map {α β : Type} (f : α → β) (n : Nat) (xs : List α) :
    chunks n (xs.map f) = (chunks n xs).map (List.map f) := by
  fun_induction chunks n xs with
  | case1 xs h =>
    rw [chunks, if_pos (by simpa using h)]
    rfl
  | case2 xs h ih =>
    rw [chunks, if_neg (by simpa using h), ← List.map_take, ← List.map_drop, ih]
    rfl

theorem ofJsonItems_eq_map (items : List Json) : Value.ofJsonItems items = items.map .ofJson := by
  induction items with
  | nil => rfl
  | cons x xs ih => rw [Value.ofJsonItems, ih, List.map_cons]

/-- Each of some tables has its records sent in its requests, once and in order, and nothing else is
sent. -/
structure Delivered (l : Loader) (tables : List String) (records : String → List Json)
    (results : Keyed Result) (requests : List Request) : Prop where
  keys : (Keyed.keys results).Perm tables
  counts : ∀ e ∈ results,
    e.2.attempted = (records e.1).length ∧ e.2.succeeded = (records e.1).length
  bodies : ∀ table ∈ tables, ∃ bodies,
    (requests.filter (Request.postsTo (l.endpoint table))).mapM Request.records? = some bodies ∧
      bodies.flatten = records table
  others : ∀ request ∈ requests, ∃ table ∈ tables, request.postsTo (l.endpoint table) = true

/-- A directory holds a file for each of some tables with its records, and nothing else. -/
structure HoldsTables (t : File.Tree) (p : File.Path) (tables : List String)
    (records : String → List Json) : Prop where
  names : (t.childNames p).Perm (tables.map (· ++ ".json"))
  named : "" ∉ tables
  distinct : tables.Nodup
  read : ∀ r ∈ tables, Relation.read t (p.child (r ++ ".json")) = .ok (records r)

namespace Loader

variable {l : Loader} {table : String} {c : Connection}

/-- The request that loads a chunk of records. -/
def chunkRequest (l : Loader) (table : String) (records : List Json) : Request where
  method := .post
  url := l.endpoint table
  headers := l.headers
  params := some l.params
  data := some (String.ofList (Json.render ⟨none, true⟩ (.arr records)))
  timeout := l.timeout

/-- The requests that load the records of a table. -/
def tableRequests (l : Loader) (table : String) (records : List Json) : List Request :=
  (chunks l.batchSize records).map (l.chunkRequest table)

/-- What comes of a table of which all records are loaded. -/
def loaded (table : String) (records : List Json) (period : Time.Period) : Result where
  table := table
  attempted := records.length
  succeeded := records.length
  period := some period

theorem loadChunk_succeeds (l : Loader) (table : String) (hc : c.Succeeds) (records : List Json) :
    ∃ c', l.loadChunk table (records.map .ofJson) c = (.ok (), c') ∧ c'.Succeeds ∧
      c'.requests = l.chunkRequest table records :: c.requests := by
  have hbody : bodyText (records.map .ofJson) =
      .ok (String.ofList (Json.render ⟨none, true⟩ (.arr records))) := by
    rw [bodyText, ← ofJsonItems_eq_map, Value.itemsToJson_ofJson]
    rfl
  have hrequests := c.requests_send (l.chunkRequest table records)
  obtain ⟨hreply, hnext⟩ := hc.send (l.chunkRequest table records)
  rcases hsend : c.send (l.chunkRequest table records) with ⟨reply, c'⟩
  rw [hsend] at hrequests hreply hnext
  refine ⟨c', ?_, hnext, hrequests⟩
  unfold chunkRequest at hsend
  simp only [loadChunk, hbody, hsend, hreply]

theorem loadChunks_succeeds (l : Loader) (table : String) (hdry : l.dryRun = false)
    (hc : c.Succeeds) (offset : Nat) (pieces : List (List Json)) (r : Result) :
    ∃ c', l.loadChunks table offset (pieces.map (List.map .ofJson)) r c =
        ({ r with
          attempted := r.attempted + pieces.flatten.length
          succeeded := r.succeeded + pieces.flatten.length }, c') ∧ c'.Succeeds ∧
      c'.requests = (pieces.map (l.chunkRequest table)).reverse ++ c.requests := by
  induction pieces generalizing offset r c with
  | nil => exact ⟨c, rfl, hc, rfl⟩
  | cons piece rest ih =>
    obtain ⟨c₁, hchunk, hc₁, hrequests₁⟩ := l.loadChunk_succeeds table hc piece
    obtain ⟨c₂, hrest, hc₂, hrequests₂⟩ := ih hc₁ (offset + piece.length)
      (r.withChunk offset piece.length (.ok ()))
    refine ⟨c₂, ?_, hc₂, ?_⟩
    · rw [List.map_cons, loadChunks, hdry]
      simp only [Bool.false_eq_true, if_false, hchunk, List.length_map, hrest]
      simp only [Result.withChunk, List.flatten_cons, List.length_append, Nat.add_assoc]
    · rw [hrequests₂, hrequests₁]
      simp

theorem loadTable_succeeds (l : Loader) (table : String) (hdry : l.dryRun = false)
    (hc : c.Succeeds) (records : List Json) (period : Time.Period) :
    ∃ c', l.loadTable table (records.map .ofJson) period c = (loaded table records period, c') ∧
      c'.Succeeds ∧ c'.requests = (l.tableRequests table records).reverse ++ c.requests := by
  obtain ⟨c', hload, hc', hrequests⟩ := l.loadChunks_succeeds table hdry hc 0
    (chunks l.batchSize records) { table, period := some period }
  refine ⟨c', ?_, hc', hrequests⟩
  rw [loadTable, chunks_map, hload, flatten_chunks l.batchSize_pos]
  simp only [loaded, Nat.zero_add]

/-- Files that can be read are loaded one after another. -/
theorem loadFiles_succeeds (l : Loader) (results : Keyed Result) {t : File.Tree} {p : File.Path}
    {records : String → List Json} (hdry : l.dryRun = false) (period : Time.Period)
    {names : List String}
    (hread : ∀ name ∈ names,
      Relation.read t (p.child name) = .ok (records (File.Path.stem name)))
    (hnames : (names.map File.Path.stem).Nodup)
    (hnew : ∀ name ∈ names, File.Path.stem name ∉ Keyed.keys results) (hc : c.Succeeds) :
    ∃ c', l.loadFiles t p period names results c =
        .ok (results ++ (names.map File.Path.stem).map fun table =>
          (table, loaded table (records table) period), c') ∧ c'.Succeeds ∧
      c'.requests = ((names.map File.Path.stem).flatMap fun table =>
        l.tableRequests table (records table)).reverse ++ c.requests := by
  induction names generalizing results c with
  | nil => exact ⟨c, by rw [List.map_nil, List.map_nil, List.append_nil]; rfl, hc, rfl⟩
  | cons name rest ih =>
    obtain ⟨hfirst, hrest⟩ := List.nodup_cons.1 hnames
    have hname := hnew name List.mem_cons_self
    obtain ⟨c₁, hload, hc₁, hrequests₁⟩ := l.loadTable_succeeds (File.Path.stem name) hdry hc
      (records (File.Path.stem name)) period
    have hset := Keyed.set_of_not_mem hname
      (loaded (File.Path.stem name) (records (File.Path.stem name)) period)
    have hnext : ∀ other ∈ rest, File.Path.stem other ∉ Keyed.keys (Keyed.set (File.Path.stem name)
        (loaded (File.Path.stem name) (records (File.Path.stem name)) period) results) := by
      intro other hother hmem
      rw [hset, Keyed.keys, List.map_append, List.mem_append] at hmem
      rcases hmem with hmem | hmem
      · exact hnew other (List.mem_cons_of_mem name hother) hmem
      · have hsame : File.Path.stem other = File.Path.stem name := List.mem_singleton.1 hmem
        exact hfirst (hsame ▸ List.mem_map_of_mem hother)
    obtain ⟨c₂, hfiles, hc₂, hrequests₂⟩ := ih _
      (fun other ho => hread other (List.mem_cons_of_mem name ho)) hrest hnext hc₁
    refine ⟨c₂, ?_, hc₂, ?_⟩
    · rw [loadFiles.eq_def]
      dsimp only
      rw [hread name List.mem_cons_self]
      dsimp only
      rw [hload]
      dsimp only
      rw [hfiles, hset, List.append_assoc]
      rfl
    · rw [hrequests₂, hrequests₁]
      simp

/-! The directory. -/

theorem stem_json {r : String} (h : r ≠ "") : File.Path.stem (r ++ relationEnding) = r := by
  have hr : r.toList ≠ [] := fun he => h (String.toList_eq_nil_iff.1 he)
  have hlength : 0 < r.toList.length := List.length_pos_iff.2 hr
  have hname : (r ++ relationEnding).toList = r.toList ++ ['.', 'j', 's', 'o', 'n'] := by
    rw [String.toList_append]
    rfl
  have htail : (r.toList ++ ['.', 'j', 's', 'o', 'n']).reverse.takeWhile (· != '.') =
      ['n', 'o', 's', 'j'] := by
    rw [List.reverse_append]
    rfl
  have hstart : File.Path.suffixStart? (r ++ relationEnding) = some r.toList.length := by
    simp only [File.Path.suffixStart?, hname, htail, List.length_append, List.length_cons,
      List.length_nil, List.isEmpty_cons, Bool.not_false, Bool.and_true, Bool.and_eq_true,
      decide_eq_true_eq]
    rw [if_pos (by omega)]
    congr 1
  rw [File.Path.stem, hstart]
  simp only [hname, List.take_left', String.ofList_toList]

/-- The files of a directory that has those of some tables, in the order in which they are loaded. -/
theorem exists_relationFiles_eq {t : File.Tree} {p : File.Path} {tables : List String}
    (hnames : "" ∉ tables)
    (hfiles : (t.childNames p).Perm (tables.map (· ++ relationEnding))) :
    ∃ sorted : List String, sorted.Perm tables ∧
      relationFiles t p = sorted.map (· ++ relationEnding) := by
  have hstem : ∀ r ∈ tables, File.Path.stem (r ++ relationEnding) = r := by
    intro r hr
    apply stem_json
    rintro rfl
    exact hnames hr
  have hperm : (relationFiles t p).Perm (tables.map (· ++ relationEnding)) := by
    have hall : (tables.map (· ++ relationEnding)).filter
        (fun n => relationEnding.toList.isSuffixOf n.toList) = tables.map (· ++ relationEnding) := by
      refine List.filter_eq_self.2 fun n hn => ?_
      obtain ⟨r, -, rfl⟩ := List.mem_map.1 hn
      rw [String.toList_append, List.isSuffixOf_iff_suffix]
      exact List.suffix_append _ _
    rw [← hall]
    exact (List.mergeSort_perm _ _).trans (hfiles.filter _)
  refine ⟨(relationFiles t p).map File.Path.stem, ?_, ?_⟩
  · have hback := hperm.map File.Path.stem
    rw [List.map_map] at hback
    have hid : tables.map (File.Path.stem ∘ (· ++ relationEnding)) = tables := by
      conv_rhs => rw [← List.map_id tables]
      exact List.map_congr_left hstem
    rwa [hid] at hback
  · rw [List.map_map]
    conv_lhs => rw [← List.map_id (relationFiles t p)]
    refine List.map_congr_left fun n hn => ?_
    obtain ⟨r, hr, rfl⟩ := List.mem_map.1 (hperm.mem_iff.1 hn)
    simp only [id, Function.comp_apply, hstem r hr]

/-! What the requests hold. -/

/-- Records that are read back from the body of a request as they are. -/
def IsSendable (j : Json) : Prop :=
  j.IsPlain ∧ j.IsWhole ∧ j.excess? (Json.maxDepth - 1) = none

theorem records?_chunkRequest {records : List Json} (h : ∀ j ∈ records, IsSendable j) :
    (l.chunkRequest table records).records? = some records := by
  have hfits : (Json.arr records).excess? Json.maxDepth = none := by
    rw [Json.excess?, if_neg (by decide)]
    exact Json.excessOfItems?_eq_none_iff.2 fun j hj => (h j hj).2.2
  have hread := @Json.read_render_arr ⟨none, true⟩ _
    (fun _ => Json.itemsWhole_iff.2 fun j hj => (h j hj).2.1) hfits
  rw [Json.settledItems_of_plain (Json.itemsPlain_iff.2 fun j hj => (h j hj).1)] at hread
  simp only [Request.records?, chunkRequest, Option.bind_some, String.toList_ofList, hread]

theorem mapM_map_eq_some {α β : Type} {f : α → Option β} {g : β → α} {xs : List β}
    (h : ∀ x ∈ xs, f (g x) = some x) : (xs.map g).mapM f = some xs := by
  induction xs with
  | nil => rfl
  | cons x xs ih =>
    have hrest := ih fun y hy => h y (List.mem_cons_of_mem x hy)
    rw [List.map_cons, List.mapM_cons, h x List.mem_cons_self, hrest]
    rfl

theorem bodies_tableRequests {records : List Json} (h : ∀ j ∈ records, IsSendable j) :
    (l.tableRequests table records).mapM Request.records? = some (chunks l.batchSize records) := by
  refine mapM_map_eq_some fun piece hpiece => records?_chunkRequest fun j hj => h j ?_
  rw [← flatten_chunks l.batchSize_pos records]
  exact List.mem_flatten.2 ⟨piece, hpiece, hj⟩

theorem endpoint_inj {a b : String} (h : l.endpoint a = l.endpoint b) : a = b := by
  have hlist := congrArg String.toList h
  simp only [endpoint, String.toList_append] at hlist
  exact String.toList_injective (List.append_cancel_left hlist)

theorem postsTo_of_mem_tableRequests {records : List Json} {request : Request}
    (h : request ∈ l.tableRequests table records) (url : String) :
    request.postsTo url = (l.endpoint table == url) := by
  obtain ⟨piece, -, rfl⟩ := List.mem_map.1 h
  rfl

/-- Among the requests for different tables, those for one of them are told by their address. -/
theorem filter_flatMap_tableRequests {records : String → List Json} {tables : List String}
    (hdistinct : tables.Nodup) (htable : table ∈ tables) :
    (tables.flatMap fun r => l.tableRequests r (records r)).filter
      (Request.postsTo (l.endpoint table)) = l.tableRequests table (records table) := by
  have hself : (l.tableRequests table (records table)).filter (Request.postsTo (l.endpoint table)) =
      l.tableRequests table (records table) := by
    refine List.filter_eq_self.2 fun request hr => ?_
    rw [postsTo_of_mem_tableRequests hr, beq_self_eq_true]
  have hother : ∀ r, r ≠ table →
      (l.tableRequests r (records r)).filter (Request.postsTo (l.endpoint table)) = [] := by
    intro r hne
    refine List.filter_eq_nil_iff.2 fun request hr => ?_
    rw [postsTo_of_mem_tableRequests hr, beq_iff_eq]
    exact fun he => hne (endpoint_inj he)
  induction tables with
  | nil => exact absurd htable List.not_mem_nil
  | cons r rest ih =>
    obtain ⟨hr, hrest⟩ := List.nodup_cons.1 hdistinct
    rw [List.flatMap_cons, List.filter_append]
    by_cases he : r = table
    · have hnone : (rest.flatMap fun r => l.tableRequests r (records r)).filter
          (Request.postsTo (l.endpoint table)) = [] := by
        refine List.filter_eq_nil_iff.2 fun request hmem => ?_
        obtain ⟨s, hs, hmem⟩ := List.mem_flatMap.1 hmem
        rw [postsTo_of_mem_tableRequests hmem, beq_iff_eq]
        intro hsame
        rw [endpoint_inj hsame, ← he] at hs
        exact hr hs
      rw [hnone, List.append_nil, he, hself]
    · have hmem : table ∈ rest := (List.mem_cons.1 htable).resolve_left fun h => he h.symm
      rw [hother r he, List.nil_append, ih hrest hmem]

/-- A directory of tables is delivered when no request fails. -/
theorem delivered_loadDirectory {t : File.Tree} {p : File.Path} {tables : List String}
    {records : String → List Json} (h : HoldsTables t p tables records)
    (hrecords : ∀ r ∈ tables, ∀ j ∈ records r, IsSendable j) (hdry : l.dryRun = false)
    (period : Time.Period) {replies : List Reply}
    (hreplies : ∀ reply ∈ replies, reply.failure? = none) :
    ∃ results c, l.loadDirectory t p period ⟨replies, []⟩ = .ok (results, c) ∧
      Delivered l tables records results c.requests.reverse := by
  obtain ⟨sorted, hsorted, hnamed⟩ := exists_relationFiles_eq h.named h.names
  have hstem : ∀ r ∈ sorted, File.Path.stem (r ++ relationEnding) = r := by
    intro r hr
    apply stem_json
    rintro rfl
    exact h.named (hsorted.mem_iff.1 hr)
  have hstems : (sorted.map (· ++ relationEnding)).map File.Path.stem = sorted := by
    rw [List.map_map]
    conv_rhs => rw [← List.map_id sorted]
    exact List.map_congr_left hstem
  have hdistinct : sorted.Nodup := hsorted.nodup_iff.2 h.distinct
  have hread : ∀ name ∈ sorted.map (· ++ relationEnding),
      Relation.read t (p.child name) = .ok (records (File.Path.stem name)) := by
    intro name hname
    obtain ⟨r, hr, rfl⟩ := List.mem_map.1 hname
    rw [hstem r hr]
    exact h.read r (hsorted.mem_iff.1 hr)
  have hc : Connection.Succeeds ⟨replies, []⟩ := hreplies
  obtain ⟨c, hload, -, hrequests⟩ := l.loadFiles_succeeds [] hdry period hread
    (by rw [hstems]; exact hdistinct) (fun _ _ => List.not_mem_nil) hc
  rw [hstems, List.nil_append] at hload
  rw [hstems, List.append_nil] at hrequests
  refine ⟨_, c, by rw [loadDirectory, hnamed, hload], ?_⟩
  rw [hrequests, List.reverse_reverse]
  constructor
  · rw [Keyed.keys, List.map_map]
    have hid : sorted.map ((·.1) ∘ fun r => (r, loaded r (records r) period)) = sorted :=
      List.map_id sorted
    rw [hid]
    exact hsorted
  · intro e he
    obtain ⟨r, -, rfl⟩ := List.mem_map.1 he
    exact ⟨rfl, rfl⟩
  · intro r hr
    have hmem := hsorted.mem_iff.2 hr
    rw [filter_flatMap_tableRequests hdistinct hmem]
    exact ⟨_, bodies_tableRequests (hrecords r hr), flatten_chunks l.batchSize_pos (records r)⟩
  · intro request hmem
    obtain ⟨r, hr, hmem⟩ := List.mem_flatMap.1 hmem
    refine ⟨r, hsorted.mem_iff.1 hr, ?_⟩
    rw [postsTo_of_mem_tableRequests hmem, beq_self_eq_true]

end Loader
end BackendMigration.Load
