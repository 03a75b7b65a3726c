import BackendMigration.Proofs.Relation.Reader
import BackendMigration.Proofs.Relation.Run
import Mathlib.Data.List.Induction

/-! Records that are tried one after another, whatever comes of each, and what the files hold in the
end. -/
namespace BackendMigration.Relation

open File File.Tree

/-- A writer and its files after some records were tried: those that were written, in order, and why
the other ones were not, the last one first. -/
structure Log where
  writer : Writer
  files : Tree
  written : List (String × Document.Value)
  refused : List (String × WriteError)

namespace Log

/-- A run of a writer begins. -/
def begin (w : Writer) (files : Tree) : Log := ⟨w.reset, files, [], []⟩

/-- Try to write a record to a relation. -/
def attempt (l : Log) (a : String × Document.Value) : Log :=
  match l.writer.write l.files a.1 a.2 with
  | (.ok w, t) => { l with writer := w, files := t, written := l.written ++ [a] }
  | (.error e, t) => { l with files := t, refused := (a.1, e) :: l.refused }

/-- Try to write records in a run that begins. -/
def run (w : Writer) (files : Tree) (attempts : List (String × Document.Value)) : Log :=
  attempts.foldl attempt (begin w files)

/-- The records written to a relation. -/
def writtenTo (l : Log) (r : String) : List Document.Value :=
  (l.written.filter (·.1 == r)).map (·.2)

/-- The relations whose file was opened for a record that has no bytes. -/
def opened (l : Log) : List String :=
  l.refused.filterMap fun a => if a.2.isUnwritable then some a.1 else none

theorem run_concat (w : Writer) (files : Tree) (attempts : List (String × Document.Value))
    (a : String × Document.Value) : run w files (attempts ++ [a]) = (run w files attempts).attempt a := by
  simp [run]

theorem attempt_of_ok {l : Log} {a : String × Document.Value} {w : Writer} {t : Tree}
    (h : l.writer.write l.files a.1 a.2 = (.ok w, t)) :
    l.attempt a = { l with writer := w, files := t, written := l.written ++ [a] } := by
  rw [attempt, h]

theorem attempt_of_error {l : Log} {a : String × Document.Value} {e : WriteError} {t : Tree}
    (h : l.writer.write l.files a.1 a.2 = (.error e, t)) :
    l.attempt a = { l with files := t, refused := (a.1, e) :: l.refused } := by
  rw [attempt, h]

theorem written_attempt (l : Log) (a : String × Document.Value) :
    (l.attempt a).written = l.written ∨ (l.attempt a).written = l.written ++ [a] := by
  unfold attempt
  split
  · exact .inr rfl
  · exact .inl rfl

theorem refused_attempt {l : Log} {a : String × Document.Value} {b : String × WriteError}
    (h : b ∈ (l.attempt a).refused) : b.1 = a.1 ∨ b ∈ l.refused := by
  unfold attempt at h
  split at h
  · exact .inr h
  · rcases List.mem_cons.1 h with rfl | h
    · exact .inl rfl
    · exact .inr h

theorem exists_of_mem_opened {l : Log} {r : String} (h : r ∈ l.opened) : ∃ a ∈ l.refused, a.1 = r := by
  obtain ⟨a, ha, hr⟩ := List.mem_filterMap.1 h
  split at hr
  · exact ⟨a, ha, Option.some.inj hr⟩
  · cases hr

/-- What was written was tried. -/
theorem mem_of_mem_written {w : Writer} {files : Tree} {attempts : List (String × Document.Value)}
    {a : String × Document.Value} (h : a ∈ (run w files attempts).written) : a ∈ attempts := by
  induction attempts using List.reverseRecOn with
  | nil => exact h
  | append_singleton attempts b ih =>
    rw [run_concat] at h
    rw [List.mem_append, List.mem_singleton]
    rcases written_attempt (run w files attempts) b with hwritten | hwritten
    · rw [hwritten] at h
      exact .inl (ih h)
    · rw [hwritten, List.mem_append, List.mem_singleton] at h
      exact h.imp_left ih

/-- The file of each relation holds the records written to it. -/
structure Sound (w : Writer) (base : Tree) (place : Path) (l : Log) : Prop where
  holds : Holds w base place l.writer l.files (fun r => (l.writtenTo r).map (textOf w.indent)) l.opened
  writable : ∀ a ∈ l.written, Writable w.indent a.2

variable {w : Writer} {base files : Tree} {place : Path} {l : Log} {a : String × Document.Value}

theorem writtenTo_concat {α : Type} (written : List (String × α)) (a : String × α) (r : String) :
    ((written ++ [a]).filter (·.1 == r)).map (·.2) =
      (written.filter (·.1 == r)).map (·.2) ++ if r = a.1 then [a.2] else [] := by
  by_cases h : r = a.1
  · simp [h]
  · have : (a.1 == r) = false := by simpa using fun e => h e.symm
    simp [h, this]

theorem Sound.attempt (h : l.Sound w base place) (hplace : base.resolve w.directory = .ok place)
    (hb : base.isDirectory w.directory = true) (ha : '/' ∉ a.1.toList) :
    (l.attempt a).Sound w base place := by
  rcases h.holds.write_cases hplace hb ha a.2 with ⟨⟨text, ht, hn⟩, hreceives⟩ | ⟨e, t, he, hholds⟩
  · obtain ⟨w', t, hw, hholds⟩ := h.holds.write hb hreceives ht hn
    rw [attempt_of_ok hw]
    refine ⟨hholds.congr fun r => ?_, fun b hb => ?_⟩
    · rw [writtenTo, writtenTo_concat]
      by_cases hr : r = a.1
      · simp [hr, writtenTo, textOf, ht, Except.toOption]
      · simp [hr, writtenTo]
    · rcases List.mem_append.1 hb with hb | hb
      · exact h.writable b hb
      · rw [List.mem_singleton.1 hb]
        exact ⟨text, ht, hn⟩
  · rw [attempt_of_error he]
    refine ⟨?_, h.writable⟩
    have hopened : opened { l with files := t, refused := (a.1, e) :: l.refused } =
        if e.isUnwritable then a.1 :: l.opened else l.opened := by
      rw [opened, List.filterMap_cons]
      cases e.isUnwritable <;> rfl
    rw [hopened]
    exact hholds

/-- However many records are tried, the files hold those that were written. -/
theorem sound_run_of_names (hbase : files.makeDirectories w.directory = .ok base)
    (hplace : base.resolve w.directory = .ok place) {attempts : List (String × Document.Value)}
    (ha : ∀ a ∈ attempts, '/' ∉ a.1.toList) : (run w files attempts).Sound w base place := by
  have hb := isDirectory_of_makeDirectories hbase
  have hbegin : (begin w files).Sound w base place :=
    ⟨.begin hbase, fun a ha => absurd ha List.not_mem_nil⟩
  have go : ∀ (attempts : List (String × Document.Value)) (l : Log), l.Sound w base place →
      (∀ a ∈ attempts, '/' ∉ a.1.toList) → (attempts.foldl Log.attempt l).Sound w base place := by
    intro attempts
    induction attempts with
    | nil => exact fun l h _ => h
    | cons a rest ih =>
      exact fun l h ha => ih _ (h.attempt hplace hb (ha a List.mem_cons_self))
        fun b hb => ha b (List.mem_cons_of_mem a hb)
  exact go attempts _ hbegin ha

theorem sound_run (hbase : files.makeDirectories w.directory = .ok base)
    (hplace : base.resolve w.directory = .ok place) {attempts : List (String × Document.Value)}
    (ha : ∀ a ∈ attempts, sanitize a.1 = a.1) : (run w files attempts).Sound w base place :=
  sound_run_of_names hbase hplace fun a hmem => slash_not_mem_of_sanitize (ha a hmem)

/-- What the files of a finished run hold: the records written to each of some relations; every other
file that changed was opened for a record without bytes and is empty. -/
structure Finished (l : Log) (w : Writer) (base : Tree) (place : Path) (relations : List String)
    (files : Tree) : Prop where
  read : ∀ r ∈ relations, Relation.read files (w.path r) = .ok ((l.writtenTo r).map readBack)
  other : ∀ p, files.node? p ≠ base.node? p → (∃ r ∈ relations, p = jsonFile place r) ∨
    ∃ r ∈ l.opened, p = jsonFile place r ∧ files.node? p = some (.ofText [])

theorem writtenTo_eq_nil_iff {r : String} : l.writtenTo r = [] ↔ r ∉ l.written.map (·.1) := by
  rw [writtenTo, List.map_eq_nil_iff, List.filter_eq_nil_iff]
  constructor
  · intro h hmem
    obtain ⟨a, ha, rfl⟩ := List.mem_map.1 hmem
    exact h a ha (beq_self_eq_true a.1)
  · exact fun hnot a ha hrel => hnot (List.mem_map.2 ⟨a, ha, eq_of_beq hrel⟩)

theorem mem_of_writtenTo {relations : List String} (hall : ∀ a ∈ l.written, a.1 ∈ relations) {r : String}
    (hne : (l.writtenTo r).map (textOf w.indent) ≠ []) : r ∈ relations := by
  refine Classical.byContradiction fun hnot => hne ?_
  have hnone : l.writtenTo r = [] := writtenTo_eq_nil_iff.2 fun hmem => by
    obtain ⟨a, ha, rfl⟩ := List.mem_map.1 hmem
    exact hnot (hall a ha)
  rw [hnone, List.map_nil]

theorem Sound.finished (h : l.Sound w base place) (hplace : base.resolve w.directory = .ok place)
    (hb : base.isDirectory w.directory = true) {relations : List String} (hne : relations ≠ [])
    (hr : ∀ r ∈ relations, sanitize r = r) (hall : ∀ a ∈ l.written, a.1 ∈ relations) {w' : Writer}
    {files' : Tree} (hfinal : l.writer.finalize l.files relations = (.ok w', files')) :
    w'.directory = w.directory ∧ l.Finished w base place relations files' := by
  have hreceives := h.holds.receives_of_finalize hplace hb
    (fun r hmem => slash_not_mem_of_sanitize (hr r hmem)) hfinal
  obtain ⟨w'', files'', hfinal', hdirectory, hfilled⟩ :=
    h.holds.finalize hb hne (fun r => mem_of_writtenTo hall) hreceives
  obtain ⟨rfl, rfl⟩ : w'' = w' ∧ files'' = files' := by
    rw [hfinal'] at hfinal
    simpa using hfinal
  refine ⟨hdirectory, fun r hmem => ?_, fun p hp => ?_⟩
  · have hwritable : ∀ v ∈ l.writtenTo r, Writable w.indent v := by
      intro v hv
      obtain ⟨a, ha, rfl⟩ := List.mem_map.1 hv
      exact h.writable a (List.mem_filter.1 ha).1
    refine read_of_records hwritable (hfilled.read (hreceives r hmem) ?_)
    rw [if_pos hmem]
  · refine Classical.byContradiction fun hnot => hp (hfilled.other p fun r hheld hpath => hnot ?_)
    by_cases hmem : r ∈ relations
    · exact .inl ⟨r, hmem, hpath⟩
    · rw [if_neg hmem] at hheld
      by_cases hopen : r ∈ l.opened
      · refine .inr ⟨r, hopen, hpath, ?_⟩
        rw [hpath]
        refine hfilled.file r [] ?_
        rw [if_neg hmem, if_pos hopen]
      · rw [if_neg hopen] at hheld
        exact absurd rfl hheld

/-- Where the directory cannot be made no record is written. -/
theorem write_of_no_directory {f : File.Fault} (h : files.makeDirectories w.directory = .error f)
    (r : String) (record : Document.Value) :
    ∃ e, w.reset.write files r record = (.error e, files) := by
  have hdirectory : files.makeDirectories w.reset.directory = .error f := h
  have hcounts : Keyed.get? r w.reset.counts = none := rfl
  have hopen : w.reset.finalized = false := rfl
  rw [Writer.write, hdirectory, hcounts, hopen, if_neg Bool.false_ne_true]
  cases Writer.recordText w.reset.indent record with
  | error e => exact ⟨_, rfl⟩
  | ok text => exact ⟨_, rfl⟩

theorem run_of_no_directory {f : File.Fault} (h : files.makeDirectories w.directory = .error f)
    (attempts : List (String × Document.Value)) :
    (run w files attempts).writer = w.reset ∧ (run w files attempts).files = files ∧
      (run w files attempts).written = [] := by
  have go : ∀ (attempts : List (String × Document.Value)) (l : Log),
      l.writer = w.reset ∧ l.files = files ∧ l.written = [] →
        (attempts.foldl attempt l).writer = w.reset ∧ (attempts.foldl attempt l).files = files ∧
          (attempts.foldl attempt l).written = [] := by
    intro attempts
    induction attempts with
    | nil => exact fun l hl => hl
    | cons a rest ih =>
      rintro l ⟨hw, ht, hnone⟩
      obtain ⟨e, he⟩ := write_of_no_directory h a.1 a.2
      rw [← hw, ← ht] at he
      refine ih _ ?_
      rw [attempt_of_error he]
      exact ⟨hw, ht, hnone⟩
  exact go attempts _ ⟨rfl, rfl, rfl⟩

/-- Whether a record is written does not depend on the records tried before it. -/
theorem isOk_write_iff {attempts : List (String × Document.Value)}
    (ha : ∀ a ∈ attempts, sanitize a.1 = a.1) {r : String} (hr : sanitize r = r)
    (record : Document.Value) :
    ((run w files attempts).writer.write (run w files attempts).files r record).1.isOk = true ↔
      ∃ base place, files.makeDirectories w.directory = .ok base ∧
        base.resolve w.directory = .ok place ∧ Writable w.indent record ∧
        base.Receives (w.path r) (jsonFile place r) := by
  cases hbase : files.makeDirectories w.directory with
  | error f =>
    obtain ⟨hw, ht, -⟩ := run_of_no_directory hbase attempts
    obtain ⟨e, he⟩ := write_of_no_directory hbase r record
    rw [hw, ht, he]
    exact ⟨fun h => (nomatch h), fun ⟨_, _, h, _⟩ => (nomatch h)⟩
  | ok base =>
    have hb := isDirectory_of_makeDirectories hbase
    obtain ⟨place, hplace, -⟩ := isDirectory_iff.1 hb
    have hsound := sound_run hbase hplace ha
    constructor
    · intro h
      rcases hsound.holds.write_cases hplace hb (slash_not_mem_of_sanitize hr) record with
        ⟨hwritable, hreceives⟩ | ⟨e, t, he, -⟩
      · exact ⟨base, place, rfl, hplace, hwritable, hreceives⟩
      · rw [he] at h
        cases h
    · rintro ⟨base', place', hbase', hplace', ⟨text, htext, hn⟩, hreceives⟩
      cases hbase'
      cases hplace.symm.trans hplace'
      obtain ⟨w', t, hwrite, -⟩ := hsound.holds.write hb hreceives htext hn
      rw [hwrite]
      rfl

theorem finalize_of_no_directory {f : File.Fault} (h : files.makeDirectories w.directory = .error f)
    {relations : List String} (hne : relations ≠ []) :
    w.reset.finalize files relations = (.error (.file (.file f)), files) := by
  have hopen : w.reset.finalized = false := rfl
  have hclose : w.reset.closeAll files (Keyed.keys w.reset.counts) = (.ok (), files) := rfl
  have hdirectory : files.makeDirectories w.reset.directory = .error f := h
  have hempty : relations.filter (fun r => !Keyed.has r w.reset.counts) = relations :=
    List.filter_eq_self.2 fun _ _ => rfl
  rw [Writer.finalize, hopen, if_neg Bool.false_ne_true, hclose, hempty]
  cases relations with
  | nil => exact absurd rfl hne
  | cons r rest => simp only [hdirectory]

/-- When a run ends well, its directory is there and the files are complete. -/
theorem finished_of_finalize {attempts : List (String × Document.Value)} {relations : List String}
    (ha : ∀ a ∈ attempts, sanitize a.1 = a.1) (hne : relations ≠ [])
    (hr : ∀ r ∈ relations, sanitize r = r)
    (hall : ∀ a ∈ (run w files attempts).written, a.1 ∈ relations) {w' : Writer} {files' : Tree}
    (hfinal : (run w files attempts).writer.finalize (run w files attempts).files relations =
      (.ok w', files')) :
    ∃ base place, files.makeDirectories w.directory = .ok base ∧
      base.resolve w.directory = .ok place ∧ w'.directory = w.directory ∧
      (run w files attempts).Finished w base place relations files' := by
  cases hbase : files.makeDirectories w.directory with
  | error f =>
    obtain ⟨hw, ht, -⟩ := run_of_no_directory hbase attempts
    rw [hw, ht, finalize_of_no_directory hbase hne] at hfinal
    cases hfinal
  | ok base =>
    have hb := isDirectory_of_makeDirectories hbase
    obtain ⟨place, hplace, -⟩ := isDirectory_iff.1 hb
    obtain ⟨hdirectory, hfinished⟩ := (sound_run hbase hplace ha).finished hplace hb hne hr hall hfinal
    exact ⟨base, place, rfl, hplace, hdirectory, hfinished⟩

/-- When a run ends well, so does one that has some of its relations only, whatever records it tries. -/
theorem exists_finalize {attempts attempts' : List (String × Document.Value)}
    {relations relations' : List String} (ha : ∀ a ∈ attempts, sanitize a.1 = a.1)
    (ha' : ∀ a ∈ attempts', sanitize a.1 = a.1) (hr : ∀ r ∈ relations, sanitize r = r)
    (hsub : ∀ r ∈ relations', r ∈ relations) (hne : relations' ≠ [])
    (hall : ∀ a ∈ (run w files attempts').written, a.1 ∈ relations') {w' : Writer} {files' : Tree}
    (hfinal : (run w files attempts).writer.finalize (run w files attempts).files relations =
      (.ok w', files')) :
    ∃ w'' files'', (run w files attempts').writer.finalize (run w files attempts').files relations' =
      (.ok w'', files'') := by
  cases hbase : files.makeDirectories w.directory with
  | error f =>
    have hne' : relations ≠ [] := by
      obtain ⟨r, hmem⟩ := List.exists_mem_of_ne_nil _ hne
      exact List.ne_nil_of_mem (hsub r hmem)
    obtain ⟨hw, ht, -⟩ := run_of_no_directory hbase attempts
    rw [hw, ht, finalize_of_no_directory hbase hne'] at hfinal
    cases hfinal
  | ok base =>
    have hb := isDirectory_of_makeDirectories hbase
    obtain ⟨place, hplace, -⟩ := isDirectory_iff.1 hb
    have hreceives := (sound_run hbase hplace ha).holds.receives_of_finalize hplace hb
      (fun r hmem => slash_not_mem_of_sanitize (hr r hmem)) hfinal
    obtain ⟨w'', files'', hfinal', -⟩ := (sound_run hbase hplace ha').holds.finalize hb hne
      (fun r => mem_of_writtenTo hall) fun r hmem => hreceives r (hsub r hmem)
    exact ⟨w'', files'', hfinal'⟩

/-- What was written can be read off the writer and the files, whatever records were tried. -/
theorem map_readBack_writtenTo_eq {attempts attempts' : List (String × Document.Value)}
    (ha : ∀ a ∈ attempts, sanitize a.1 = a.1) (ha' : ∀ a ∈ attempts', sanitize a.1 = a.1)
    (hw : (run w files attempts').writer = (run w files attempts).writer)
    (ht : (run w files attempts').files = (run w files attempts).files) (r : String) :
    ((run w files attempts').writtenTo r).map readBack =
      ((run w files attempts).writtenTo r).map readBack := by
  cases hbase : files.makeDirectories w.directory with
  | error f =>
    obtain ⟨-, -, hnone⟩ := run_of_no_directory hbase attempts
    obtain ⟨-, -, hnone'⟩ := run_of_no_directory hbase attempts'
    rw [writtenTo, writtenTo, hnone, hnone']
  | ok base =>
    have hb := isDirectory_of_makeDirectories hbase
    obtain ⟨place, hplace, -⟩ := isDirectory_iff.1 hb
    have hsound := sound_run hbase hplace ha
    have hsound' := sound_run hbase hplace ha'
    -- Both runs are ended with the relations that either of them has written to.
    let relations := (run w files attempts).written.map (·.1) ++ (run w files attempts').written.map (·.1)
    by_cases hmem : r ∈ relations
    · have hne : relations ≠ [] := List.ne_nil_of_mem hmem
      have hall : ∀ a ∈ (run w files attempts).written, a.1 ∈ relations :=
        fun a ha => List.mem_append_left _ (List.mem_map_of_mem ha)
      have hall' : ∀ a ∈ (run w files attempts').written, a.1 ∈ relations :=
        fun a ha => List.mem_append_right _ (List.mem_map_of_mem ha)
      have hsanitized : ∀ r ∈ relations, sanitize r = r := by
        intro r hr
        rcases List.mem_append.1 hr with hr | hr <;> obtain ⟨a, hwritten, rfl⟩ := List.mem_map.1 hr
        · exact ha a (mem_of_mem_written hwritten)
        · exact ha' a (mem_of_mem_written hwritten)
      have hreceives : ∀ r ∈ relations, base.Receives (w.path r) (jsonFile place r) := by
        intro r hr
        rcases List.mem_append.1 hr with hr | hr
        · exact hsound.holds.received r fun h =>
            writtenTo_eq_nil_iff.1 (List.map_eq_nil_iff.1 h) hr
        · exact hsound'.holds.received r fun h =>
            writtenTo_eq_nil_iff.1 (List.map_eq_nil_iff.1 h) hr
      obtain ⟨w', t, hfinal, -⟩ :=
        hsound.holds.finalize hb hne (fun r => mem_of_writtenTo hall) hreceives
      have hread := (hsound.finished hplace hb hne hsanitized hall hfinal).2.read r hmem
      rw [← hw, ← ht] at hfinal
      have hread' := (hsound'.finished hplace hb hne hsanitized hall' hfinal).2.read r hmem
      rw [hread'] at hread
      exact Except.ok.inj hread
    · rw [List.mem_append, not_or] at hmem
      rw [writtenTo_eq_nil_iff.2 hmem.1, writtenTo_eq_nil_iff.2 hmem.2]

end Log
end BackendMigration.Relation
