import BackendMigration.Document.Encoding
import BackendMigration.Json.Printer
import BackendMigration.Json.Reader
import BackendMigration.Load.Exchange
import BackendMigration.Relation.Reader
import BackendMigration.Text.Search
import BackendMigration.Time.Form

/-! Loading records into tables, a chunk of records with each request. -/
namespace BackendMigration.Load

open Document (Value)

/-- A loader as it is asked for. -/
structure Settings where
  url : Value
  key : Value
  dryRun : Bool := false
  batchSize : Int := 1000
  upsert : Bool := true
  onConflict : Value := .text "firestore_id"
  timeout : Json := .int 60
  deriving Repr

/-- A loader: where it loads to, and how many records go into a chunk. -/
structure Loader where
  url : String
  key : Value
  dryRun : Bool
  batchSize : Nat
  upsert : Bool
  /-- The column that identifies a row. -/
  onConflict : Value
  timeout : Json
  batchSize_pos : 0 < batchSize
  deriving Repr

/-- What is wrong with the settings of a loader. -/
inductive SettingsError where
  | batchSize
  | noUrl
  | noKey
  /-- The address is no text. -/
  | urlKind
  /-- The batch size is no whole number. -/
  | batchSizeKind
  deriving DecidableEq, Repr

def SettingsError.message : SettingsError → String
  | batchSize => "batch_size must be positive"
  | noUrl => "Supabase URL is required"
  | noKey => "Supabase service role key is required"
  | urlKind => "the address must be a text"
  | batchSizeKind => "the batch size must be a whole number"

/-- The batch size that a value gives; a number below zero is as good as none. -/
def batchSizeOf : Value → Except SettingsError Int
  | .int n => .ok n
  | .bool b => .ok (if b then 1 else 0)
  | .float (.finite negative m _) => if negative || m == 0 then .ok 0 else .error .batchSizeKind
  | .float (.infinite true) => .ok 0
  | _ => .error .batchSizeKind

/-- An address without slashes at its end; a value that counts as no is an empty one. -/
def baseUrl? (url : Value) : Option String :=
  if url.isFalsy then some ""
  else url.text?.map fun s => String.ofList (Text.trimEnd (· == '/') s.toList)

/-- A batch size that is not refused is positive. -/
theorem toNat_pos_of_not_nonpos {n : Int} (h : ¬n ≤ 0) : 0 < n.toNat := by omega

/-- The loader of settings. A dry run needs neither address nor key. -/
def Settings.loader (s : Settings) : Except SettingsError Loader :=
  if h : s.batchSize ≤ 0 then .error .batchSize
  else if !s.dryRun && s.url.isFalsy then .error .noUrl
  else if !s.dryRun && s.key.isFalsy then .error .noKey
  else
    match baseUrl? s.url with
    | none => .error .urlKind
    | some url => .ok {
        url := url
        key := s.key
        dryRun := s.dryRun
        batchSize := s.batchSize.toNat
        upsert := s.upsert
        onConflict := s.onConflict
        timeout := s.timeout
        batchSize_pos := toNat_pos_of_not_nonpos h }

/-- The records of a failed chunk, and why it failed. -/
structure ChunkError where
  offset : Nat
  count : Nat
  message : String
  deriving DecidableEq, Repr

/-- What came of loading a table. -/
structure Result where
  table : String
  attempted : Nat := 0
  succeeded : Nat := 0
  failed : Nat := 0
  errors : List ChunkError := []
  period : Option Time.Period := none
  deriving DecidableEq, Repr

/-- The part of the records that was loaded. -/
def Result.successRate (r : Result) : Double :=
  if r.attempted = 0 then .zero false else .ofRatio false r.succeeded r.attempted

def ChunkError.toJson (e : ChunkError) : Json :=
  .obj [("offset", .int e.offset), ("count", .int e.count), ("error", .str e.message)]

/-- The JSON form of a result. -/
def Result.toJson (r : Result) : Json :=
  .obj
    [("table", .str r.table), ("total_attempted", .int r.attempted),
      ("total_succeeded", .int r.succeeded), ("total_failed", .int r.failed),
      ("success_rate", .float r.successRate),
      ("started_at", Time.timeJson (r.period.map (·.start))),
      ("completed_at", Time.timeJson (r.period.map (·.stop))),
      ("duration_seconds", Time.secondsJson (r.period.map fun p =>
        Time.secondsBetween p.start p.stop)),
      ("errors", .arr (r.errors.map ChunkError.toJson))]

/-- Pieces of `n` items each, of which the last may be shorter. -/
def chunks {α : Type} (n : Nat) (xs : List α) : List (List α) :=
  if xs = [] ∨ n = 0 then [] else xs.take n :: chunks n (xs.drop n)
termination_by xs.length
decreasing_by
  rename_i h
  have : xs.length ≠ 0 := fun hn => h (.inl (List.length_eq_zero_iff.1 hn))
  simp only [List.length_drop]
  omega

namespace Loader

def headers (l : Loader) : List (String × Json) :=
  [("apikey", l.key.shown), ("Authorization", .str ("Bearer " ++ l.key.spelled)),
    ("Content-Type", .str "application/json"),
    ("Prefer",
      .str ("return=minimal" ++ (if l.upsert then ",resolution=merge-duplicates" else "")))]

def endpoint (l : Loader) (table : String) : String := l.url ++ "/rest/v1/" ++ table

/-- Rows that conflict on a column are merged. -/
def params (l : Loader) : List (String × Json) :=
  if l.upsert && !l.onConflict.isFalsy then [("on_conflict", l.onConflict.shown)] else []

/-- The body of a request that loads records. -/
def bodyText (records : List Value) : Except Document.EncodeError String := do
  return String.ofList (Json.render ⟨none, true⟩ (.arr (← Value.itemsToJson records)))

end Loader

/-- What an answer's text tells of a failure: its message, its error, or all of it. A text with too
much in it to keep track of tells nothing; instead there is a message about that. -/
def failureDetail (text : String) : Except String String :=
  match Json.read text.toList with
  | .ok (.obj fields) =>
    let told (key : String) : Option Value :=
      ((Keyed.get? key fields).map Value.ofJson).filter fun v => !v.isFalsy
    .ok (((told "message").or (told "error")).getD (Value.ofJson (.obj fields))).spelled
  | .ok _ => .ok text
  | .error f => if f.cause.category = .depth then .error f.cause.message else .ok text

/-- Why a request counts as failed. -/
def Reply.failure? : Reply → Option String
  | .fault f => some f.message
  | .answer status text =>
    if 400 ≤ status ∧ status < 600 then
      some (match failureDetail text with
        | .ok detail => "HTTP " ++ toString status ++ ": " ++ detail
        | .error message => message)
    else none

/-- Add what came of a chunk at an offset to what came of those before it. -/
def Result.withChunk (r : Result) (offset count : Nat) (outcome : Except String Unit) : Result :=
  let r := { r with attempted := r.attempted + count }
  match outcome with
  | .ok () => { r with succeeded := r.succeeded + count }
  | .error message =>
    { r with failed := r.failed + count, errors := r.errors ++ [⟨offset, count, message⟩] }

namespace Loader

/-- Load a chunk. -/
def loadChunk (l : Loader) (table : String) (records : List Value) (c : Connection) :
    Except String Unit × Connection :=
  match bodyText records with
  | .error e => (.error e.message, c)
  | .ok data =>
    let (reply, c) := c.send
      ⟨.post, l.endpoint table, l.headers, some l.params, some data, l.timeout⟩
    match reply.failure? with
    | some message => (.error message, c)
    | none => (.ok (), c)

/-- Load chunks, the first of which is at an offset. A failure of one does not stop the others. -/
def loadChunks (l : Loader) (table : String) :
    Nat → List (List Value) → Result → Connection → Result × Connection
  | _, [], r, c => (r, c)
  | offset, chunk :: rest, r, c =>
    let (outcome, c) := if l.dryRun then (.ok (), c) else l.loadChunk table chunk c
    loadChunks l table (offset + chunk.length) rest (r.withChunk offset chunk.length outcome) c

/-- Load the records of a table. -/
def loadTable (l : Loader) (table : String) (records : List Value)
    (period : Time.Period) (c : Connection) : Result × Connection :=
  l.loadChunks table 0 (chunks l.batchSize records) { table, period := some period } c

/-- The result for a file that cannot be read. -/
def unreadable (table : String) (e : Relation.ReadError) : Result :=
  { table, errors := [⟨0, 0, e.message⟩] }

/-- The ending of relation files; the table's name stands before it. -/
def relationEnding : String := ".json"

/-- The names of the relation files in a directory, in order. -/
def relationFiles (t : File.Tree) (p : File.Path) : List String :=
  ((t.childNames p).filter fun n => relationEnding.toList.isSuffixOf n.toList).mergeSort
    fun a b => a ≤ b

/-- Load the relation files of a directory, each into the table of its name. A file that is at fault
does not stop the others. -/
def loadFiles (l : Loader) (t : File.Tree) (p : File.Path) (period : Time.Period) :
    List String → Keyed Result → Connection → Except Relation.ReadError (Keyed Result × Connection)
  | [], results, c => .ok (results, c)
  | name :: rest, results, c =>
    let table := File.Path.stem name
    match Relation.read t (p.child name) with
    | .error e =>
      if e.isOfFile then
        loadFiles l t p period rest (Keyed.set table (unreadable table e) results) c
      else .error e
    | .ok records =>
      let (r, c) := l.loadTable table (records.map .ofJson) period c
      loadFiles l t p period rest (Keyed.set table r results) c

/-- Load a directory of relation files. -/
def loadDirectory (l : Loader) (t : File.Tree) (p : File.Path) (period : Time.Period)
    (c : Connection) : Except Relation.ReadError (Keyed Result × Connection) :=
  l.loadFiles t p period (relationFiles t p) [] c

/-- Whether the server answers a request of its root without a failure. -/
def validate (l : Loader) (c : Connection) : Except Fault Bool × Connection :=
  if l.dryRun then (.ok true, c)
  else
    match c.send ⟨.get, l.endpoint "", l.headers, none, none, l.timeout⟩ with
    | (.answer status _, c) => (.ok (status < 400), c)
    | (.fault (.request _), c) => (.ok false, c)
    | (.fault f, c) => (.error f, c)

end Loader

/-- The pieces make up the whole. -/
theorem flatten_chunks {α : Type} {n : Nat} (h : 0 < n) (xs : List α) :
    (chunks n xs).flatten = xs := by
  fun_induction chunks n xs with
  | case1 xs hx =>
    rcases hx with hx | hx
    · simp [hx]
    · omega
  | case2 xs hx ih => simp [ih]

/-- A piece is never empty and never longer than asked for. -/
theorem length_of_mem_chunks {α : Type} {n : Nat} {xs c : List α} (h : c ∈ chunks n xs) :
    0 < c.length ∧ c.length ≤ n := by
  fun_induction chunks n xs with
  | case1 xs hx => simp at h
  | case2 xs hx ih =>
    rcases List.mem_cons.1 h with rfl | h
    · have h1 : xs ≠ [] := fun e => hx (.inl e)
      have h2 : n ≠ 0 := fun e => hx (.inr e)
      have h3 : 0 < xs.length := List.length_pos_iff.2 h1
      simp only [List.length_take]
      omega
    · exact ih h

end BackendMigration.Load
