import BackendMigration.Proofs.Export.Plain
import BackendMigration.Proofs.Load.Directory

/-! An export and a load of its directory: what was written is what is sent. -/
namespace BackendMigration.Load

open BackendMigration.Relation (Log Writable readBack sanitize)
open Document (Value)
open Export (Exporter Session)
open Loader (IsSendable)

variable {entries : Document.Entries}

/-- A plain record is read back as it was. -/
theorem ofJson_readBack (h : entries.ArePlain) :
    Value.ofJson (readBack (.map entries)) = .map entries := by
  obtain ⟨j, hj, hjson, hplain⟩ := h.exists_settled
  rw [readBack, hjson, Except.toOption, Option.getD_some, Json.settled_of_isPlain hplain, hj]

/-- A plain record that was written can be sent. -/
theorem isSendable_readBack {indent : Option Nat} (h : entries.ArePlain)
    (hw : Writable indent (.map entries)) : IsSendable (readBack (.map entries)) := by
  obtain ⟨j, -, hjson, hplain⟩ := h.exists_settled
  obtain ⟨text, htext, hwhole⟩ := hw
  obtain ⟨i, hi, hfits, rfl⟩ := Relation.recordText_eq_ok_iff.1 htext
  obtain rfl : j = i := Except.ok.inj (hjson.symm.trans hi)
  rw [readBack, hjson, Except.toOption, Option.getD_some, Json.settled_of_isPlain hplain]
  exact ⟨hplain, Json.isWhole_of_renderAt hwhole, hfits⟩

/-- Plain records that a run wrote to a relation are read back as they were, and can be sent. -/
theorem sendable_writtenTo {l : Log} {w : BackendMigration.Relation.Writer} {base : File.Tree}
    {place : File.Path} (hsound : l.Sound w base place)
    (hplain : ∀ a ∈ l.written, ∃ entries : Document.Entries, a.2 = .map entries ∧ entries.ArePlain)
    (r : String) : ((l.writtenTo r).map readBack).map Value.ofJson = l.writtenTo r ∧
      ∀ j ∈ (l.writtenTo r).map readBack, IsSendable j := by
  have hrecord : ∀ v ∈ l.writtenTo r, ∃ entries : Document.Entries,
      v = .map entries ∧ entries.ArePlain ∧ Writable w.indent v := by
    intro v hv
    obtain ⟨a, ha, rfl⟩ := List.mem_map.1 hv
    have hmem := (List.mem_filter.1 ha).1
    obtain ⟨entries, he, hentries⟩ := hplain a hmem
    exact ⟨entries, he, hentries, hsound.writable a hmem⟩
  constructor
  · rw [List.map_map]
    conv_rhs => rw [← List.map_id (l.writtenTo r)]
    refine List.map_congr_left fun v hv => ?_
    obtain ⟨entries, rfl, hentries, -⟩ := hrecord v hv
    exact ofJson_readBack hentries
  · intro j hj
    obtain ⟨v, hv, rfl⟩ := List.mem_map.1 hj
    obtain ⟨entries, rfl, hentries, hwritable⟩ := hrecord v hv
    exact isSendable_readBack hentries hwritable

/-- The records that an export wrote to each relation, as JSON. Its result, if there is one, tells how
many these are. -/
structure Wrote (e : Exporter) (order : Export.Order) (settings : Export.Settings)
    (period : Time.Period) (session : Session) (written : String → List Json) : Prop where
  log : ∃ attempts, Export.Accounts session attempts (e.walked settings period session) ∧
    ∀ r, (written r).map .ofJson = (Log.run session.writer session.files attempts).writtenTo r
  told : ∀ result, (e.export order period session).result = .ok result →
    Keyed.keys result.relations = Keyed.keys (e.walked settings period session).result.relations ∧
    ∀ f ∈ result.relations, f.2.count = (written f.1).length

variable {e : Exporter} {order : Export.Order} {settings : Export.Settings} {period : Time.Period}
  {session : Session} {base : File.Tree}

/-- An export to an empty directory leaves the records there that it wrote, and nothing else. -/
theorem exists_holdsTables_of_export (ho : order.settings = .ok settings)
    (hcollection : settings.collection ≠ "") (hhooks : e.hooks = []) (hstore : e.store.HoldsPlain)
    (hfiles : session.files.Distinct)
    (hbase : session.files.makeDirectories session.writer.directory = .ok base)
    (hempty : base.childNames session.writer.directory = [])
    (hclosed : (e.export order period session).IsClosed) :
    ∃ written, Wrote e order settings period session written ∧
      HoldsTables (e.export order period session).session.files session.writer.directory
        (Keyed.keys (e.walked settings period session).result.relations) written ∧
      ∀ r, ∀ j ∈ written r, IsSendable j := by
  obtain ⟨attempts, h⟩ := Export.exists_plainAccounts hcollection hhooks hstore period session
  obtain ⟨hcomplete, hkept⟩ := Export.exists_complete_of_isClosed ho hclosed h.accounts
  obtain ⟨-, base', place, hbase', hplace, hfinished⟩ := hcomplete
  obtain rfl : base' = base := Except.ok.inj (hbase'.symm.trans hbase)
  have hsound := Log.sound_run hbase hplace h.accounts.attempted
  have hsendable := sendable_writtenTo hsound fun a ha => h.plain a (Log.mem_of_mem_written ha)
  refine ⟨fun r => ((Log.run session.writer session.files attempts).writtenTo r).map readBack,
    ⟨⟨attempts, h.accounts, fun r => (hsendable r).1⟩, fun result hresult => ?_⟩, ?_,
    fun r => (hsendable r).2⟩
  · obtain ⟨hkeys, hentries⟩ := hkept result hresult
    refine ⟨hkeys, fun f hf => ?_⟩
    rw [(hentries f hf).1, List.length_map]
  · have hsanitized : ∀ r ∈ Keyed.keys (e.walked settings period session).result.relations,
        sanitize r = r := by
      intro r hr
      obtain ⟨f, hf, rfl⟩ := List.mem_map.1 hr
      exact (h.accounts.entries f hf).2.1
    have hdistinct : (e.export order period session).session.files.Distinct := by
      obtain ⟨writer, hfinal, -⟩ := Exporter.exists_finalize_of_isClosed ho hclosed
      have hwalked : (e.walked settings period session).files.Distinct := by
        rw [h.accounts.files]
        exact Log.lasting_run File.Tree.lasting_distinct hfiles attempts
      have hdone := (e.walked settings period session).writer.lasting_finalize
        File.Tree.lasting_distinct hwalked
        (Keyed.keys (e.walked settings period session).result.relations)
      rwa [hfinal] at hdone
    refine ⟨?_, h.named.named, h.named.nodup, fun r hr => ?_⟩
    · apply hfinished.perm_childNames hplace hempty _ hdistinct hsanitized h.named.nodup
      intro r hr
      obtain ⟨a, ha, rfl⟩ := Log.exists_of_mem_opened hr
      exact h.refused a ha
    · have hslash := BackendMigration.Relation.slash_not_mem_of_sanitize (hsanitized r hr)
      rw [← BackendMigration.Relation.path_eq_child session.writer hslash]
      exact hfinished.read r hr

/-- Loading the directory of an export sends every record that the export wrote, once and in order,
to the table of its relation, where the fields of documents are JSON without floats, the directory was
empty and no request fails, also if the export ended early because a record could not be written. -/
theorem delivered_of_export (ho : order.settings = .ok settings)
    (hcollection : settings.collection ≠ "") (hhooks : e.hooks = []) (hstore : e.store.HoldsPlain)
    (hfiles : session.files.Distinct)
    (hbase : session.files.makeDirectories session.writer.directory = .ok base)
    (hempty : base.childNames session.writer.directory = [])
    (hclosed : (e.export order period session).IsClosed) {l : Loader} (hdry : l.dryRun = false)
    (loading : Time.Period) {replies : List Reply}
    (hreplies : ∀ reply ∈ replies, reply.failure? = none) :
    ∃ written, Wrote e order settings period session written ∧
      ∃ results c, l.loadDirectory (e.export order period session).session.files
          session.writer.directory loading ⟨replies, []⟩ = .ok (results, c) ∧
        Delivered l (Keyed.keys (e.walked settings period session).result.relations) written results
          c.requests.reverse := by
  obtain ⟨written, hwrote, hholds, hsendable⟩ :=
    exists_holdsTables_of_export ho hcollection hhooks hstore hfiles hbase hempty hclosed
  refine ⟨written, hwrote, ?_⟩
  exact l.delivered_loadDirectory hholds (fun r _ => hsendable r) hdry loading hreplies

/-- A store with a note below one of two users. -/
def notes : Export.Store where
  collections :=
    [("users", [⟨"ada", [(.text "age", .int 36)]⟩, ⟨"bob", []⟩]),
      ("users/ada/notes", [⟨"first", [(.text "tags", .list [.null, .text "a"])]⟩])]
  distinct := by decide

theorem holdsPlain_notes : notes.HoldsPlain := by
  apply Export.Store.holdsPlain_of_collections
  intro c hc d hd
  simp only [notes, List.mem_cons, List.not_mem_nil, or_false] at hc
  rcases hc with rfl | rfl
  · simp only [List.mem_cons, List.not_mem_nil, or_false] at hd
    rcases hd with rfl | rfl
    · exact ⟨[("age", .int 36)], rfl, by decide, trivial, trivial⟩
    · exact ⟨[], rfl, List.nodup_nil, trivial⟩
  · obtain rfl := List.mem_singleton.1 hd
    exact ⟨[("tags", .arr [.null, .str "a"])], rfl, by decide, ⟨trivial, trivial, trivial⟩, trivial⟩

def notesOrder : Export.Order := { collection := "users", includeSubcollections := true, maxDepth := 1 }

def notesSettings : Export.Settings := ⟨"users", 1000, 0, true, 1, 100, .flatten, by decide⟩

def notesPeriod : Time.Period := ⟨⟨⟨2024, 5, 1⟩, {}, some 0⟩, ⟨⟨2024, 5, 1⟩, {}, some 0⟩⟩

/-- The export goes to a directory that is not there yet. -/
def notesSession : Session := ⟨⟨⟨false, ["out"]⟩, some 2, [], false⟩, .empty, .never⟩

/-- A loader that sends one record with each request. -/
def singleLoader : Loader :=
  ⟨"http://db", .text "key", false, 1, true, .text "id", .int 60, by decide⟩

theorem delivered_of_export_notes :
    ((Exporter.mk notes []).export notesOrder notesPeriod notesSession).IsClosed ∧
      ∃ written, Wrote (.mk notes []) notesOrder notesSettings notesPeriod notesSession written ∧
        ∃ results c, singleLoader.loadDirectory
            ((Exporter.mk notes []).export notesOrder notesPeriod notesSession).session.files
            ⟨false, ["out"]⟩ notesPeriod ⟨[.created], []⟩ = .ok (results, c) ∧
          Delivered singleLoader ["users", "users_notes"] written results c.requests.reverse := by
  have hclosed : ((Exporter.mk notes []).export notesOrder notesPeriod notesSession).IsClosed := by
    decide +kernel
  have hkeys : Keyed.keys ((Exporter.mk notes []).walked notesSettings notesPeriod
      notesSession).result.relations = ["users", "users_notes"] := by decide +kernel
  have hdelivered := @delivered_of_export (.mk notes []) notesOrder notesSettings notesPeriod
    notesSession ⟨[(⟨false, ["out"]⟩, .directory)]⟩ rfl (by decide) rfl holdsPlain_notes
    File.Tree.distinct_empty rfl rfl hclosed singleLoader rfl notesPeriod [.created] (by decide)
  rw [hkeys] at hdelivered
  exact ⟨hclosed, hdelivered⟩

end BackendMigration.Load
