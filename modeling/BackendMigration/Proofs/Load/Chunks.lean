import BackendMigration.Load.Loader
import Mathlib.Algebra.Ring.Nat

/-! Loading a table: how its records are cut into pieces, what is sent of them, and what its result says of
those that were not loaded. -/
namespace BackendMigration.Load

open Document (Value)

theorem chunks_eq_nil_iff {α : Type} {n : Nat} (hn : 0 < n) {xs : List α} :
    chunks n xs = [] ↔ xs = [] := by
  rw [chunks]
  split <;> simp_all [Nat.pos_iff_ne_zero]

/-- All pieces but the last one are as long as asked for. -/
theorem length_of_mem_dropLast_chunks {α : Type} {n : Nat} (hn : 0 < n) {xs piece : List α}
    (h : piece ∈ (chunks n xs).dropLast) : piece.length = n := by
  fun_induction chunks n xs with
  | case1 xs hx => cases h
  | case2 xs hx ih =>
    by_cases hlast : xs.drop n = []
    · rw [hlast, (chunks_eq_nil_iff hn).2 rfl] at h
      cases h
    · rw [List.dropLast_cons_of_ne_nil (mt (chunks_eq_nil_iff hn).1 hlast)] at h
      rcases List.mem_cons.1 h with rfl | h
      · have hlong := List.length_pos_iff.2 hlast
        rw [List.length_drop] at hlong
        rw [List.length_take]
        omega
      · exact ih h

/-- A piece of the records of a table, and why it was not loaded if it was not. -/
structure Trial where
  records : List Value
  failure : Option String

/-- The entries of a result for the pieces that were not loaded, where the first piece is at an offset. -/
def failuresFrom : Nat → List Trial → List ChunkError
  | _, [] => []
  | offset, trial :: rest =>
    (trial.failure.map fun message => ⟨offset, trial.records.length, message⟩).toList ++
      failuresFrom (offset + trial.records.length) rest

/-- Each entry delimits the records of its piece. -/
theorem map_span_failuresFrom (front : List Value) (trials : List Trial) :
    (failuresFrom front.length trials).map (fun e =>
        ((front ++ trials.flatMap (·.records)).drop e.offset).take e.count) =
      (trials.filter (·.failure.isSome)).map (·.records) := by
  induction trials generalizing front with
  | nil => rfl
  | cons trial rest ih =>
    have hrest := ih (front ++ trial.records)
    rw [List.length_append, List.append_assoc] at hrest
    rw [failuresFrom, List.map_append, List.flatMap_cons, hrest]
    cases hfailure : trial.failure <;> simp [hfailure]

/-- Add what came of pieces to what came of those before them. -/
def Result.withTrials : Result → Nat → List Trial → Result
  | r, _, [] => r
  | r, offset, trial :: rest =>
    (r.withChunk offset trial.records.length
      (match trial.failure with | none => .ok () | some message => .error message)).withTrials
        (offset + trial.records.length) rest

/-- The records of the pieces are added to those attempted, and each is loaded or is counted by an
entry. -/
theorem Result.counts_withTrials (r : Result) (offset : Nat) (trials : List Trial) :
    (r.withTrials offset trials).attempted = r.attempted + (trials.flatMap (·.records)).length ∧
    (r.withTrials offset trials).succeeded + (r.withTrials offset trials).failed =
      r.succeeded + r.failed + (trials.flatMap (·.records)).length ∧
    (r.withTrials offset trials).failed =
      r.failed + ((failuresFrom offset trials).map (·.count)).sum ∧
    (r.withTrials offset trials).errors = r.errors ++ failuresFrom offset trials := by
  induction trials generalizing r offset with
  | nil => simp [withTrials, failuresFrom]
  | cons trial rest ih =>
    obtain ⟨hattempted, hsum, hfailed, herrors⟩ := ih
      (r.withChunk offset trial.records.length
        (match trial.failure with | none => .ok () | some message => .error message))
      (offset + trial.records.length)
    rw [withTrials, hattempted, hsum, hfailed, herrors, failuresFrom, List.flatMap_cons,
      List.length_append]
    cases trial.failure <;>
      simp only [withChunk, Option.map_none, Option.map_some, Option.toList_none, Option.toList_some,
        List.nil_append, List.singleton_append, List.map_cons, List.sum_cons, List.append_assoc,
        and_true] <;>
      omega

namespace Loader

variable (l : Loader) (table : String)

/-- How pieces fare where requests meet replies, in order. A piece that cannot be written is not sent, and
a dry run sends none. -/
def trials (l : Loader) : List Reply → List (List Value) → List Trial
  | _, [] => []
  | replies, piece :: rest =>
    if l.dryRun then ⟨piece, none⟩ :: l.trials replies rest
    else match bodyText piece with
      | .error e => ⟨piece, some e.message⟩ :: l.trials replies rest
      | .ok _ => ⟨piece, (replies.headD .created).failure?⟩ :: l.trials replies.tail rest

/-- The request that loads a piece, if it can be written. -/
def post? (piece : List Value) : Option Request :=
  (bodyText piece).toOption.map fun data =>
    ⟨.post, l.endpoint table, l.headers, some l.params, some data, l.timeout⟩

/-- The requests that load pieces. -/
def posts (pieces : List (List Value)) : List Request :=
  if l.dryRun then [] else pieces.filterMap (l.post? table)

theorem map_records_trials (replies : List Reply) (pieces : List (List Value)) :
    (l.trials replies pieces).map (·.records) = pieces := by
  induction pieces generalizing replies with
  | nil => rfl
  | cons piece rest ih =>
    unfold trials
    split
    · rw [List.map_cons, ih]
    · split <;> rw [List.map_cons, ih]

theorem flatMap_records_trials (replies : List Reply) (pieces : List (List Value)) :
    (l.trials replies pieces).flatMap (·.records) = pieces.flatten := by
  rw [List.flatMap_def, map_records_trials]

theorem loadChunk_of_error {piece : List Value} {e : Document.EncodeError} (c : Connection)
    (h : bodyText piece = .error e) : l.loadChunk table piece c = (.error e.message, c) := by
  rw [loadChunk, h]

theorem loadChunk_of_ok {piece : List Value} {data : String} (c : Connection)
    (h : bodyText piece = .ok data) : ∃ request, l.post? table piece = some request ∧
      l.loadChunk table piece c =
        (match (c.replies.headD .created).failure? with
          | none => .ok ()
          | some message => .error message, ⟨c.replies.tail, request :: c.requests⟩) := by
  refine ⟨_, by rw [post?, h]; rfl, ?_⟩
  rw [loadChunk, h]
  obtain ⟨replies, requests⟩ := c
  cases replies with
  | nil => rfl
  | cons reply rest =>
    simp only [Connection.send, List.headD_cons, List.tail_cons]
    cases reply.failure? <;> rfl

/-- The pieces are tried one after another, whatever comes of those before. -/
theorem loadChunks_eq (offset : Nat) (pieces : List (List Value)) (r : Result) (c : Connection) :
    (l.loadChunks table offset pieces r c).1 = r.withTrials offset (l.trials c.replies pieces) ∧
    (l.loadChunks table offset pieces r c).2.requests = (l.posts table pieces).reverse ++ c.requests ∧
    (l.dryRun = true → (l.loadChunks table offset pieces r c).2 = c) := by
  induction pieces generalizing offset r c with
  | nil => exact ⟨rfl, by rw [posts]; split <;> rfl, fun _ => rfl⟩
  | cons piece rest ih =>
    unfold loadChunks trials
    by_cases hdry : l.dryRun = true
    · simp only [hdry, if_true]
      obtain ⟨hresult, hrequests, hsame⟩ := ih (offset + piece.length)
        (r.withChunk offset piece.length (.ok ())) c
      refine ⟨hresult, ?_, fun _ => hsame hdry⟩
      rw [hrequests, posts, posts, if_pos hdry, if_pos hdry]
    · have hposts (pieces : List (List Value)) :
          l.posts table pieces = pieces.filterMap (l.post? table) := if_neg hdry
      simp only [hdry, if_false, Bool.false_eq_true]
      cases hbody : bodyText piece with
      | error e =>
        rw [l.loadChunk_of_error table c hbody]
        obtain ⟨hresult, hrequests, -⟩ := ih (offset + piece.length)
          (r.withChunk offset piece.length (.error e.message)) c
        refine ⟨hresult, ?_, False.elim⟩
        have hnone : l.post? table piece = none := by rw [post?, hbody]; rfl
        rw [hrequests, hposts, hposts, List.filterMap_cons_none hnone]
      | ok data =>
        obtain ⟨request, hsome, hload⟩ := l.loadChunk_of_ok table c hbody
        rw [hload]
        obtain ⟨hresult, hrequests, -⟩ := ih (offset + piece.length) _
          ⟨c.replies.tail, request :: c.requests⟩
        refine ⟨hresult, ?_, False.elim⟩
        rw [hrequests, hposts, hposts, List.filterMap_cons_some hsome, List.reverse_cons,
          List.append_assoc]
        rfl

/-- In a dry run no piece fails. -/
theorem trials_of_dryRun (h : l.dryRun = true) (replies : List Reply) (pieces : List (List Value))
    (offset : Nat) : failuresFrom offset (l.trials replies pieces) = [] := by
  induction pieces generalizing offset with
  | nil => rfl
  | cons piece rest ih =>
    unfold trials
    rw [if_pos h, failuresFrom, ih]
    rfl

end Loader

/-- What loading a table does and tells: the pieces that its records are cut into, the requests made, and
the result. -/
structure Told (l : Loader) (table : String) (records : List Value) (c : Connection) (r : Result)
    (c' : Connection) : Prop where
  joined : (chunks l.batchSize records).flatten = records
  full : ∀ piece ∈ (chunks l.batchSize records).dropLast, piece.length = l.batchSize
  bounded : ∀ piece ∈ chunks l.batchSize records, 0 < piece.length ∧ piece.length ≤ l.batchSize
  tried : (l.trials c.replies (chunks l.batchSize records)).map (·.records) =
    chunks l.batchSize records
  posted : c'.requests = (l.posts table (chunks l.batchSize records)).reverse ++ c.requests
  attempted_eq : r.attempted = records.length
  sum_eq : r.succeeded + r.failed = r.attempted
  errors_eq : r.errors = failuresFrom 0 (l.trials c.replies (chunks l.batchSize records))
  spans_eq : r.errors.map (fun e => (records.drop e.offset).take e.count) =
    ((l.trials c.replies (chunks l.batchSize records)).filter (·.failure.isSome)).map (·.records)
  failed_eq : r.failed = (r.errors.map (·.count)).sum
  dry : l.dryRun = true → c' = c ∧ r.succeeded = records.length ∧ r.failed = 0 ∧ r.errors = []

/-- A table is loaded piece by piece, whatever comes of each piece. -/
theorem Loader.told_loadTable (l : Loader) (table : String) (records : List Value)
    (period : Time.Period) (c : Connection) :
    Told l table records c (l.loadTable table records period c).1
      (l.loadTable table records period c).2 := by
  have hjoined := flatten_chunks l.batchSize_pos records
  obtain ⟨hresult, hrequests, hsame⟩ := l.loadChunks_eq table 0 (chunks l.batchSize records)
    { table, period := some period } c
  obtain ⟨hattempted, hsum, hfailed, herrors⟩ := Result.counts_withTrials
    { table, period := some period } 0 (l.trials c.replies (chunks l.batchSize records))
  rw [l.flatMap_records_trials, hjoined] at hattempted hsum
  rw [← hresult] at hattempted hsum hfailed herrors
  have hspans := map_span_failuresFrom [] (l.trials c.replies (chunks l.batchSize records))
  rw [l.flatMap_records_trials, hjoined] at hspans
  simp only [Nat.zero_add, List.nil_append] at hattempted hsum hfailed herrors
  exact {
    joined := hjoined
    full := fun piece h => length_of_mem_dropLast_chunks l.batchSize_pos h
    bounded := fun piece h => length_of_mem_chunks h
    tried := l.map_records_trials _ _
    posted := hrequests
    attempted_eq := hattempted
    sum_eq := hsum.trans hattempted.symm
    errors_eq := herrors
    spans_eq := by rw [loadTable, herrors]; exact hspans
    failed_eq := by rw [loadTable, herrors]; exact hfailed
    dry := by
      intro hdry
      rw [l.trials_of_dryRun hdry] at hfailed herrors
      refine ⟨hsame hdry, ?_, hfailed, herrors⟩
      rw [loadTable]
      simp only [List.map_nil, List.sum_nil] at hfailed
      omega }

end BackendMigration.Load
