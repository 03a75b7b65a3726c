import BackendMigration.Proofs.Document.Entries
import BackendMigration.Proofs.Json.Finite
import BackendMigration.Proofs.Load.Chunks
import BackendMigration.Proofs.Relation.Log

/-! Values that are written with finite numbers only. -/
namespace BackendMigration.Document.Value

mutual

/-- The doubles that a value is written with. -/
def floats : Value → List Double
  | float x => [x]
  | decimal d => d.toDouble?.toList
  | list items | tuple items | set _ items => floatsOfItems items
  | map entries => floatsOfEntries entries
  | geoPoint latitude longitude => latitude.floats ++ longitude.floats
  | _ => []

def floatsOfItems : List Value → List Double
  | [] => []
  | x :: xs => x.floats ++ floatsOfItems xs

def floatsOfEntries : List (Value × Value) → List Double
  | [] => []
  | (_, x) :: r => x.floats ++ floatsOfEntries r

end

/-- The value is written with finite numbers only. -/
def IsFinite (v : Value) : Prop := ∀ x ∈ v.floats, x.isFinite = true

theorem exists_of_bind {ε α β : Type} {x : Except ε α} {f : α → Except ε β} {b : β} (h : (x >>= f) = .ok b) :
    ∃ a, x = .ok a ∧ f a = .ok b := by
  cases x with
  | error e => cases h
  | ok a => exact ⟨a, rfl, h⟩

mutual

theorem floats_of_toJson : ∀ {v : Value} {j : Json}, v.toJson = .ok j → j.floats = v.floats
  | null, _, h | bool _, _, h | int _, _, h | float _, _, h | text _, _, h | timestamp _, _, h | date _, _, h
  | clock _, _, h | reference _, _, h | bytes _ _, _, h | unknown _, _, h => by
    cases h
    rfl
  | list items, _, h | tuple items, _, h | set _ items, _, h => by
    obtain ⟨js, hjs, hj⟩ := exists_of_bind h
    cases hj
    exact floats_of_itemsToJson hjs
  | map entries, _, h => by
    obtain ⟨fields, hfields, hj⟩ := exists_of_bind h
    cases hj
    exact floats_of_entriesToJson hfields
  | geoPoint latitude longitude, _, h => by
    obtain ⟨j, hj, h⟩ := exists_of_bind h
    obtain ⟨k, hk, h⟩ := exists_of_bind h
    cases h
    simp only [Json.floats, Json.floatsOfFields, floats, floats_of_toJson hj, floats_of_toJson hk,
      List.append_nil]
  | decimal d, j, h => by
    rw [toJson] at h
    cases hd : d.toDouble? with
    | none => simp [hd] at h
    | some x =>
      simp only [hd, Except.ok.injEq] at h
      subst h
      rw [floats, hd]
      rfl

theorem floats_of_itemsToJson : ∀ {items : List Value} {js : List Json},
    itemsToJson items = .ok js → Json.floatsOfItems js = floatsOfItems items
  | [], _, h => by
    cases h
    rfl
  | x :: xs, _, h => by
    obtain ⟨j, hj, h⟩ := exists_of_bind h
    obtain ⟨js, hjs, h⟩ := exists_of_bind h
    cases h
    rw [Json.floatsOfItems, floatsOfItems, floats_of_toJson hj, floats_of_itemsToJson hjs]

theorem floats_of_entriesToJson : ∀ {entries : List (Value × Value)} {fields : List (String × Json)},
    entriesToJson entries = .ok fields → Json.floatsOfFields fields = floatsOfEntries entries
  | [], _, h => by
    cases h
    rfl
  | (_, x) :: r, _, h => by
    obtain ⟨_, j, fields, -, hj, hfields, rfl⟩ := exists_of_entriesToJson_cons h
    rw [Json.floatsOfFields, floatsOfEntries, floats_of_toJson hj, floats_of_entriesToJson hfields]

end

/-- The JSON form has the numbers of the value. -/
theorem isFinite_toJson_iff {v : Value} {j : Json} (h : v.toJson = .ok j) : j.IsFinite ↔ v.IsFinite := by
  rw [Json.IsFinite, floats_of_toJson h, IsFinite]

theorem isFinite_items_iff {items : List Value} :
    (∀ x ∈ floatsOfItems items, x.isFinite = true) ↔ ∀ v ∈ items, v.IsFinite := by
  induction items with
  | nil => simp [floatsOfItems]
  | cons v vs ih => rw [floatsOfItems, List.forall_mem_append, ih, List.forall_mem_cons, IsFinite]

end BackendMigration.Document.Value

/-! Complete relation files and the requests of a loader are standard JSON exactly if their numbers are
finite. -/
namespace BackendMigration.Relation

open Document (Value)
open File File.Tree
open Json (IsStandard Quiet render)
open Json.Mode (code)

variable {indent : Option Nat} {style : Json.Style} {js : List Json} {records : List Value}

/-- A file that has records is an array with a line for the end of each of them. -/
theorem arrayText_cons {α : Type} (f : α → Text) (a : α) (as : List α) : arrayText ((a :: as).map f) =
    '[' :: (Json.body ⟨some 0, false⟩ 0 f a as ++ [']']) ++ ['\n'] := by
  rw [arrayText, if_neg (by simp), openArray, List.map_cons, Text.join_cons]
  simp [Json.body, Json.Style.lineBreak, Json.Style.separator, List.flatMap_map]

theorem isStandard_arrayText_iff :
    IsStandard (arrayText (js.map (render style))) ↔ ∀ j ∈ js, j.IsFinite := by
  have hbreak : Json.IsBlank ['\n'] := List.forall_mem_singleton.2 rfl
  cases js with
  | nil =>
    have hempty : IsStandard (arrayText []) := .blank Json.isBlank_nil (.emptyArray Json.isBlank_nil) hbreak
    exact ⟨fun _ => List.forall_mem_nil _, fun _ => hempty⟩
  | cons j js =>
    obtain ⟨hends, hquiet⟩ := Json.after_enclosed ⟨some 0, false⟩ 0 (o := '[') (c := ']') (by decide)
      (by decide) fun k (_ : k ∈ j :: js) => (Json.after_renderAt style k 0).1
    rw [arrayText_cons]
    constructor
    · intro h k hk
      have hall := ((Json.quiet_append_iff hends).1 h.quiet).1
      exact (Json.after_renderAt style k 0).2 (hquiet hall k hk)
    · intro h
      exact .blank Json.isBlank_nil
        (Json.isStandard_array fun k hk => Json.isStandard_renderAt (h k hk) 0) hbreak

/-- The file of records is standard exactly if the records have finite numbers only. -/
theorem isStandard_records_iff (h : ∀ record ∈ records, Writable indent record) :
    IsStandard (arrayText (records.map (textOf indent))) ↔ ∀ record ∈ records, record.IsFinite := by
  have hjson : ∀ record ∈ records, textOf indent record =
      render ⟨indent, false⟩ (record.toJson.toOption.getD .null) ∧
        ((record.toJson.toOption.getD .null).IsFinite ↔ record.IsFinite) := by
    intro record hmem
    obtain ⟨text, htext, -⟩ := h record hmem
    obtain ⟨j, hj, -, rfl⟩ := recordText_eq_ok_iff.1 htext
    rw [textOf, htext, hj]
    exact ⟨rfl, Value.isFinite_toJson_iff hj⟩
  have htexts : records.map (textOf indent) =
      (records.map fun r => r.toJson.toOption.getD .null).map (render ⟨indent, false⟩) := by
    rw [List.map_map]
    exact List.map_congr_left fun record hmem => (hjson record hmem).1
  rw [htexts, isStandard_arrayText_iff, List.forall_mem_map]
  exact forall₂_congr fun record hmem => (hjson record hmem).2

/-- What the files of a run that has ended hold. -/
theorem Log.read_of_finalize {w : Writer} {files : Tree} {attempts : List (String × Value)}
    (ha : ∀ a ∈ attempts, '/' ∉ a.1.toList) {relations : List String} (hr : ∀ r ∈ relations, '/' ∉ r.toList)
    {w' : Writer} {files' : Tree}
    (hfinal : (run w files attempts).writer.finalize (run w files attempts).files relations = (.ok w', files'))
    {r : String} (hmem : (run w files attempts).writtenTo r ≠ [] ∨ r ∈ relations) :
    (∀ v ∈ (run w files attempts).writtenTo r, Writable w.indent v) ∧ files'.read (w.path r) =
      .ok (String.ofList (arrayText (((run w files attempts).writtenTo r).map (textOf w.indent)))).toUTF8 := by
  cases hbase : files.makeDirectories w.directory with
  | error f =>
    obtain ⟨hw, ht, hnone⟩ := run_of_no_directory hbase attempts
    rcases hmem with hmem | hmem
    · exact absurd (by rw [writtenTo, hnone]; rfl) hmem
    · rw [hw, ht, finalize_of_no_directory hbase (List.ne_nil_of_mem hmem)] at hfinal
      cases hfinal
  | ok base =>
    have hb := isDirectory_of_makeDirectories hbase
    obtain ⟨place, hplace, -⟩ := isDirectory_iff.1 hb
    have hsound := sound_run_of_names hbase hplace ha
    have hne : (run w files attempts).writer.counts = [] → relations ≠ [] := by
      intro hcounts
      rcases hmem with hmem | hmem
      · exact absurd hcounts (hsound.holds.counts_ne_nil (mt List.map_eq_nil_iff.1 hmem))
      · exact List.ne_nil_of_mem hmem
    obtain ⟨closed, t, hclosed, hreceives, hfilled, hend⟩ := hsound.holds.finalize_cases hplace hb hne hr
    rcases hend with ⟨hok, hall⟩ | ⟨e, herror⟩
    · rw [hok] at hfinal
      obtain ⟨-, rfl⟩ := Prod.mk.inj hfinal
      have hin : r ∈ closed := hmem.elim (fun h => hclosed r (mt List.map_eq_nil_iff.1 h)) (hall r)
      refine ⟨fun v hv => ?_, hfilled.read (hreceives r hin) (if_pos hin)⟩
      obtain ⟨a, hwritten, rfl⟩ := List.mem_map.1 hv
      exact hsound.writable a (List.mem_filter.1 hwritten).1
    · rw [herror] at hfinal
      cases hfinal

end BackendMigration.Relation

namespace BackendMigration.Load

open Document (Value)
open Json (IsStandard)
open BackendMigration.Relation (Log Writer)

theorem isStandard_bodyText_iff {records : List Value} {body : String}
    (h : Loader.bodyText records = .ok body) :
    IsStandard body.toList ↔ ∀ record ∈ records, record.IsFinite := by
  obtain ⟨js, hjs, hbody⟩ := Value.exists_of_bind h
  cases hbody
  rw [String.toList_ofList, Json.isStandard_render_iff, Json.IsFinite, Json.floats,
    Value.floats_of_itemsToJson hjs, Value.isFinite_items_iff]

/-- Each file of a run that has ended well, and each request that loads records, is standard JSON exactly if
its records have finite numbers only. -/
theorem standard_iff_finite (w : Writer) (files : File.Tree) {attempts : List (String × Value)}
    (ha : ∀ a ∈ attempts, '/' ∉ a.1.toList) {relations : List String} (hr : ∀ r ∈ relations, '/' ∉ r.toList)
    {w' : Writer} {files' : File.Tree}
    (hfinal : (Log.run w files attempts).writer.finalize (Log.run w files attempts).files relations =
      (.ok w', files'))
    (l : Loader) (table : String) (records : List Value) (period : Time.Period) (c : Connection) :
    (∀ r, (Log.run w files attempts).writtenTo r ≠ [] ∨ r ∈ relations → ∃ text,
      files'.read (w.path r) = .ok (String.ofList text).toUTF8 ∧
        (IsStandard text ↔ ∀ v ∈ (Log.run w files attempts).writtenTo r, v.IsFinite)) ∧
    ∃ posted, (l.loadTable table records period c).2.requests = posted ++ c.requests ∧
      ∀ request ∈ posted, ∃ piece ∈ chunks l.batchSize records, ∃ body, request.data = some body ∧
        (IsStandard body.toList ↔ ∀ v ∈ piece, v.IsFinite) := by
  constructor
  · intro r hmem
    obtain ⟨hwritable, hread⟩ := Log.read_of_finalize ha hr hfinal hmem
    exact ⟨_, hread, Relation.isStandard_records_iff hwritable⟩
  · refine ⟨_, (l.told_loadTable table records period c).posted, fun request hrequest => ?_⟩
    have hposts := List.mem_reverse.1 hrequest
    unfold Loader.posts at hposts
    split at hposts
    · cases hposts
    · obtain ⟨piece, hpiece, hpost⟩ := List.mem_filterMap.1 hposts
      unfold Loader.post? at hpost
      cases hbody : Loader.bodyText piece with
      | error e => simp [hbody, Except.toOption] at hpost
      | ok body =>
        simp only [hbody, Except.toOption, Option.map_some, Option.some.injEq] at hpost
        subst hpost
        exact ⟨piece, hpiece, body, rfl, isStandard_bodyText_iff hbody⟩

/-- The record that measures a number. -/
def measured (x : Double) : Value := .map [(.text "x", .float x)]

/-- A run that writes records to one file. -/
def measurements (records : List Value) : Log :=
  Log.run ⟨.ofText "out", some 2, [], false⟩ ⟨[(.ofText "out", .directory)]⟩ (records.map ("u", ·))

def ended (records : List Value) : Except Relation.WriteError Writer × File.Tree :=
  (measurements records).writer.finalize (measurements records).files ["u"]

def measurementLoader : Loader :=
  ⟨"http://db", .text "key", false, 2, true, .text "id", .int 60, Nat.two_pos⟩

def day : Time.Timestamp := ⟨⟨2024, 5, 1⟩, {}, some 0⟩

/-- The requests that send one measurement. -/
def sent (x : Double) : List Request :=
  (measurementLoader.loadTable "u" [measured x] ⟨day, day⟩ ⟨[], []⟩).2.requests

/-- A finite number is written to a file and sent as standard JSON. -/
theorem measured_standard :
    (∃ w' files' text, ended [measured (.ofInt 1)] = (.ok w', files') ∧
      files'.read (.ofText "out/u.json") = .ok (String.ofList text).toUTF8 ∧ IsStandard text) ∧
    (sent (.ofInt 1)).length = 1 ∧
      ∀ request ∈ sent (.ofInt 1), ∃ body, request.data = some body ∧ IsStandard body.toList := by
  have hnames : ∀ a ∈ [measured (.ofInt 1)].map ("u", ·), '/' ∉ a.1.toList := by decide
  have hok : (ended [measured (.ofInt 1)]).1.isOk = true := by decide +kernel
  have hfinite : ∀ v ∈ [measured (.ofInt 1)], v.IsFinite :=
    List.forall_mem_singleton.2 (List.forall_mem_singleton.2 (by decide +kernel))
  have hwritten : (measurements [measured (.ofInt 1)]).writtenTo "u" = [measured (.ofInt 1)] := rfl
  rcases hended : ended [measured (.ofInt 1)] with ⟨e | w', files'⟩
  · rw [hended] at hok
    cases hok
  · obtain ⟨hfiles, posted, hrequests, hposted⟩ := standard_iff_finite _ _ hnames
      (List.forall_mem_singleton.2 (by decide)) hended measurementLoader "u" [measured (.ofInt 1)]
      ⟨day, day⟩ ⟨[], []⟩
    obtain ⟨text, hread, hstandard⟩ := hfiles "u" (.inr List.mem_cons_self)
    have hpath : Writer.path ⟨.ofText "out", some 2, [], false⟩ "u" = .ofText "out/u.json" := by decide
    rw [hpath] at hread
    refine ⟨⟨w', files', text, rfl, hread, hstandard.2 ?_⟩, by decide +kernel, fun request hrequest => ?_⟩
    · rw [← measurements, hwritten]
      exact hfinite
    · rw [sent, hrequests, List.append_nil] at hrequest
      obtain ⟨piece, hpiece, body, hbody, hiff⟩ := hposted request hrequest
      refine ⟨body, hbody, hiff.2 fun v hv => hfinite v ?_⟩
      rw [← flatten_chunks measurementLoader.batchSize_pos [measured (.ofInt 1)]]
      exact List.mem_flatten_of_mem hpiece hv

/-- A number that is not finite is written by a name that is not JSON, to a file and in a request. -/
theorem notANumber_not_standard :
    ((ended [measured .nan]).2.read (.ofText "out/u.json") =
      .ok "[\n\x7b\n  \"x\": NaN\n\x7d\n]\n".toUTF8 ∧
      ¬IsStandard "[\n\x7b\n  \"x\": NaN\n\x7d\n]\n".toList) ∧
    Loader.bodyText [measured .nan] = .ok "[\x7b\"x\": NaN\x7d]" ∧
      ¬IsStandard "[\x7b\"x\": NaN\x7d]".toList := by
  refine ⟨⟨by decide +kernel, fun h => ?_⟩, by decide +kernel, fun h => ?_⟩
  · exact (h.quiet.outside 'N' (by decide)).1 rfl
  · exact (h.quiet.outside 'N' (by decide)).1 rfl

end BackendMigration.Load
