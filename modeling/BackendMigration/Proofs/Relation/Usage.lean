import BackendMigration.Proofs.Relation.Log
import BackendMigration.Proofs.Relation.Reader

/-! A writer that is used in any way: records written, runs ended and begun again. -/
namespace BackendMigration.Relation

open File File.Tree
open Json (render)

/-- A call of a writer. -/
inductive Call where
  | write (relation : String) (fields : List (String × Json))
  | finalize (relations : List String)
  | reset
  deriving DecidableEq, Repr

/-- Relations are named by file names, and records are plain. -/
def Call.IsPlain : Call → Prop
  | write relation fields => '/' ∉ relation.toList ∧ Json.IsPlain (.obj fields)
  | finalize relations => ∀ r ∈ relations, '/' ∉ r.toList
  | reset => True

/-- A writer and its files after some calls. -/
structure Usage where
  writer : Writer
  files : Tree
  /-- The records written since the last new run. -/
  written : List (String × Json) := []
  /-- An attempt to end the run with records has failed. -/
  interrupted : Bool := false

namespace Usage

/-- A new writer. -/
def begin (w : Writer) (files : Tree) : Usage := ⟨w.reset, files, [], false⟩

def step (s : Usage) : Call → Usage
  | .write relation fields =>
    match s.writer.write s.files relation (.ofJson (.obj fields)) with
    | (.ok w, t) => { s with writer := w, files := t, written := s.written ++ [(relation, .obj fields)] }
    | (.error _, t) => { s with files := t }
  | .finalize relations =>
    match s.writer.finalize s.files relations with
    | (.ok w, t) => { s with writer := w, files := t }
    | (.error _, t) => { s with files := t, interrupted := s.interrupted || !s.written.isEmpty }
  | .reset => begin s.writer s.files

def run (w : Writer) (files : Tree) (calls : List Call) : Usage := calls.foldl step (begin w files)

/-- The records written to a relation. -/
def writtenTo (s : Usage) (r : String) : List Json := (s.written.filter (·.1 == r)).map (·.2)

/-- Their texts in its file. -/
def textsOf (s : Usage) (r : String) : List Text := (s.writtenTo r).map (render ⟨s.writer.indent, false⟩)

/-- The records of each relation are read back. -/
def ReadsBack (s : Usage) : Prop :=
  ∀ r, s.writtenTo r ≠ [] → read s.files (s.writer.path r) = .ok (s.writtenTo r)

/-- The file of each relation holds an open array, of which every beginning that ends after a record,
or in or after the separator that follows one, reads as the records up to there. -/
def ReadsOpen (s : Usage) : Prop :=
  ∀ r, s.writtenTo r ≠ [] → s.files.readText (s.writer.path r) = .ok (openArray (s.textsOf r)) ∧
    ∀ n ending, ending <+: [',', '\n'] →
      parse (s.writer.path r).text (openArray ((s.textsOf r).take n) ++ ending) =
        .ok ((s.writtenTo r).take n)

/-- A run has ended, with files for some relations. -/
structure Ended (s : Usage) (relations : List String) : Prop where
  reads : ∀ r ∈ relations, read s.files (s.writer.path r) = .ok (s.writtenTo r)
  /-- Until the next run nothing changes any more. -/
  stays : ∀ later : List Call, .reset ∉ later → later.foldl step s = s
  refuses : ∀ r record, s.writer.write s.files r record = (.error .finalized, s.files)

/-- The records of a usage are plain objects that have a text. -/
def Proper (s : Usage) : Prop :=
  ∀ a ∈ s.written, (∃ fields, a.2 = .obj fields) ∧ a.2.IsPlain ∧
    a.2.excess? (Json.maxDepth - 1) = none

/-- What a usage is like that was not interrupted. -/
inductive Sound (s : Usage) : Prop
  | begun (written_eq : s.written = []) (counts_eq : s.writer.counts = [])
      (unfinished : s.writer.finalized = false)
  | writing {w : Writer} {base : Tree} {place : Path} {emptied : List String}
      (hplace : base.resolve w.directory = .ok place) (hb : base.isDirectory w.directory = true)
      (holds : Holds w base place s.writer s.files s.textsOf emptied) (written_ne : s.written ≠ [])
  | finished (finalized_eq : s.writer.finalized = true) (reads : s.ReadsBack)

variable {s : Usage} {c : Call} {r : String} {record : Document.Value} {relations : List String}
  {w w' : Writer} {t t' : Tree} {base : Tree} {place : Path} {emptied : List String}

theorem begun_begin (w : Writer) (files : Tree) : (begin w files).Sound := .begun rfl rfl rfl

theorem Proper.of_mem_writtenTo (h : s.Proper) {j : Json} (hj : j ∈ s.writtenTo r) :
    (∃ fields, j = .obj fields) ∧ j.IsPlain ∧ j.excess? (Json.maxDepth - 1) = none := by
  obtain ⟨a, ha, rfl⟩ := List.mem_map.1 hj
  exact h a (List.mem_filter.1 ha).1

theorem Proper.map_settled (h : s.Proper) (r : String) :
    (s.writtenTo r).map Json.settled = s.writtenTo r := by
  conv_rhs => rw [← List.map_id (s.writtenTo r)]
  exact List.map_congr_left fun j hj => Json.settled_of_isPlain (h.of_mem_writtenTo hj).2.1

theorem writable_ofJson {indent : Option Nat} {j : Json} (h : Writable indent (.ofJson j)) :
    j.excess? (Json.maxDepth - 1) = none ∧
      Writer.recordText indent (.ofJson j) = .ok (render ⟨indent, false⟩ j) ∧
      (render ⟨indent, false⟩ j).NoHalves := by
  obtain ⟨text, htext, hn⟩ := h
  obtain ⟨k, hk, hfits, rfl⟩ := recordText_eq_ok_iff.1 htext
  rw [Document.Value.toJson_ofJson] at hk
  cases hk
  exact ⟨hfits, htext, hn⟩

/-! What a call that succeeds says of the writer. -/

theorem not_finalized_of_write (h : w.write t r record = (.ok w', t')) : w.finalized = false := by
  rw [Bool.eq_false_iff]
  intro hf
  rw [Writer.write_finalized hf] at h
  cases h

theorem recordText_of_write (h : w.write t r record = (.ok w', t')) :
    ∃ text, Writer.recordText w.indent record = .ok text := by
  cases ht : Writer.recordText w.indent record with
  | ok text => exact ⟨text, rfl⟩
  | error e =>
    rw [Writer.write, not_finalized_of_write h, ht] at h
    cases h

theorem makeDirectories_of_write (hc : w.counts = []) (h : w.write t r record = (.ok w', t')) :
    ∃ base, t.makeDirectories w.directory = .ok base := by
  obtain ⟨text, ht⟩ := recordText_of_write h
  have hnone : Keyed.get? r w.counts = none := by
    rw [hc]
    rfl
  cases hm : t.makeDirectories w.directory with
  | ok base => exact ⟨base, rfl⟩
  | error f =>
    rw [Writer.write, not_finalized_of_write h, ht, hnone, hm] at h
    cases h

theorem reset_eq (hc : w.counts = []) (hf : w.finalized = false) : w.reset = w := by
  cases w with
  | mk directory indent counts finalized =>
    cases hc
    cases hf
    rfl

/-! One call. -/

theorem step_write_ok {fields : List (String × Json)}
    (h : s.writer.write s.files r (.ofJson (.obj fields)) = (.ok w, t)) :
    s.step (.write r fields) =
      { s with writer := w, files := t, written := s.written ++ [(r, .obj fields)] } := by
  rw [step, h]

theorem step_write_error {fields : List (String × Json)} {e : WriteError}
    (h : s.writer.write s.files r (.ofJson (.obj fields)) = (.error e, t)) :
    s.step (.write r fields) = { s with files := t } := by
  rw [step, h]

theorem step_finalize_ok (h : s.writer.finalize s.files relations = (.ok w, t)) :
    s.step (.finalize relations) = { s with writer := w, files := t } := by
  rw [step, h]

theorem step_finalize_error {e : WriteError}
    (h : s.writer.finalize s.files relations = (.error e, t)) :
    s.step (.finalize relations) =
      { s with files := t, interrupted := s.interrupted || !s.written.isEmpty } := by
  rw [step, h]

theorem Proper.step (h : s.Proper) (hc : c.IsPlain) : (s.step c).Proper := by
  cases c with
  | write r fields =>
    rcases hw : s.writer.write s.files r (.ofJson (.obj fields)) with ⟨e | w, t⟩
    · rw [step_write_error hw]
      exact h
    · rw [step_write_ok hw]
      obtain ⟨text, ht⟩ := recordText_of_write hw
      obtain ⟨j, hj, hfits, -⟩ := recordText_eq_ok_iff.1 ht
      rw [Document.Value.toJson_ofJson] at hj
      cases hj
      intro a ha
      rcases List.mem_append.1 ha with ha | ha
      · exact h a ha
      · rw [List.mem_singleton.1 ha]
        exact ⟨⟨fields, rfl⟩, hc.2, hfits⟩
  | finalize relations =>
    rcases hf : s.writer.finalize s.files relations with ⟨e | w, t⟩
    · rw [step_finalize_error hf]
      exact h
    · rw [step_finalize_ok hf]
      exact h
  | reset => exact fun a ha => absurd ha List.not_mem_nil

theorem proper_run (w : Writer) (files : Tree) {calls : List Call} (h : ∀ c ∈ calls, c.IsPlain) :
    (run w files calls).Proper := by
  induction calls using List.reverseRecOn with
  | nil => exact fun a ha => absurd ha List.not_mem_nil
  | append_singleton before c ih =>
    rw [run, List.foldl_append]
    exact (ih fun d hd => h d (List.mem_append_left _ hd)).step (h c (by simp))

theorem writtenTo_eq_nil (h : s.written = []) (r : String) : s.writtenTo r = [] := by
  rw [writtenTo, h]
  rfl

theorem ReadsBack.of_written (h : s.written = []) : s.ReadsBack :=
  fun r hr => absurd (writtenTo_eq_nil h r) hr

theorem textsOf_eq_nil_iff : s.textsOf r = [] ↔ s.writtenTo r = [] := by
  rw [textsOf, List.map_eq_nil_iff]

/-- The texts of the records after one more is written. -/
theorem textsOf_write {v : Writer} {fields : List (String × Json)} (hindent : v.indent = s.writer.indent)
    (r' : String) :
    textsOf { s with writer := v, files := t, written := s.written ++ [(r, .obj fields)] } r' =
      if r' = r then s.textsOf r ++ [render ⟨s.writer.indent, false⟩ (.obj fields)]
      else s.textsOf r' := by
  rw [textsOf, writtenTo, Log.writtenTo_concat, hindent]
  by_cases h : r' = r
  · simp [h, textsOf, writtenTo]
  · simp [h, textsOf, writtenTo]

/-- A run that begins holds no records, where its directory can be made. -/
theorem exists_holds_of_begun (hwritten : s.written = []) (hcounts : s.writer.counts = [])
    (hopen : s.writer.finalized = false)
    (hm : s.files.makeDirectories s.writer.directory = .ok base) :
    ∃ place, base.resolve s.writer.directory = .ok place ∧
      base.isDirectory s.writer.directory = true ∧
      Holds s.writer base place s.writer s.files s.textsOf [] := by
  have hb := isDirectory_of_makeDirectories hm
  obtain ⟨place, hplace, -⟩ := isDirectory_iff.1 hb
  have hbegin : Holds s.writer base place s.writer.reset s.files (fun _ => []) [] := Holds.begin hm
  rw [reset_eq hcounts hopen] at hbegin
  have hnone : ∀ r, s.textsOf r = [] := fun r => textsOf_eq_nil_iff.2 (writtenTo_eq_nil hwritten r)
  exact ⟨place, hplace, hb, hbegin.congr hnone⟩

/-- A record is written while no relation is closed. -/
theorem Sound.of_write (hplace : base.resolve w.directory = .ok place)
    (hb : base.isDirectory w.directory = true)
    (holds : Holds w base place s.writer s.files s.textsOf emptied) (hr : '/' ∉ r.toList)
    {fields : List (String × Json)} {v : Writer}
    (hw : s.writer.write s.files r (.ofJson (.obj fields)) = (.ok v, t)) :
    Sound { s with writer := v, files := t, written := s.written ++ [(r, .obj fields)] } := by
  rcases holds.write_cases hplace hb hr (.ofJson (.obj fields)) with
    ⟨hwritable, hreceives⟩ | ⟨e, t', he, -⟩
  · obtain ⟨-, htext, hn⟩ := writable_ofJson hwritable
    obtain ⟨v', t', hv, hholds⟩ := holds.write hb hreceives htext hn
    obtain ⟨rfl, rfl⟩ : v = v' ∧ t = t' := by
      rw [hw] at hv
      simpa using hv
    have hindent : v.indent = s.writer.indent := hholds.indent_eq.trans holds.indent_eq.symm
    have hne : s.written ++ [(r, Json.obj fields)] ≠ [] := by simp
    refine .writing hplace hb (hholds.congr fun r' => ?_) hne
    rw [textsOf_write hindent, holds.indent_eq]
  · rw [hw] at he
    cases he

theorem Sound.step_write {fields : List (String × Json)} (h : s.Sound) (hr : '/' ∉ r.toList) :
    (s.step (.write r fields)).Sound := by
  rcases hw : s.writer.write s.files r (.ofJson (.obj fields)) with ⟨e | v, t⟩
  · rw [step_write_error hw]
    cases h with
    | begun written_eq counts_eq unfinished => exact .begun written_eq counts_eq unfinished
    | writing hplace hb holds written_ne =>
      rcases holds.write_cases hplace hb hr (.ofJson (.obj fields)) with
        ⟨hwritable, hreceives⟩ | ⟨e', t', he, hholds⟩
      · obtain ⟨-, htext, hn⟩ := writable_ofJson hwritable
        obtain ⟨v', t', hv, -⟩ := holds.write hb hreceives htext hn
        rw [hw] at hv
        cases hv
      · rw [hw] at he
        cases he
        exact .writing hplace hb hholds written_ne
    | finished finalized_eq reads =>
      rw [Writer.write_finalized finalized_eq] at hw
      cases hw
      exact .finished finalized_eq reads
  · rw [step_write_ok hw]
    cases h with
    | begun written_eq counts_eq unfinished =>
      obtain ⟨base, hm⟩ := makeDirectories_of_write counts_eq hw
      obtain ⟨place, hplace, hb, holds⟩ := exists_holds_of_begun written_eq counts_eq unfinished hm
      exact .of_write hplace hb holds hr hw
    | writing hplace hb holds _ => exact .of_write hplace hb holds hr hw
    | finished finalized_eq _ =>
      rw [Writer.write_finalized finalized_eq] at hw
      cases hw

/-! The end of a run. -/

/-- However the end of a run goes, the records written are read back, and if it goes well, so are those
of the relations it is given. -/
theorem reads_of_finalize (hp : s.Proper) (hplace : base.resolve w.directory = .ok place)
    (hb : base.isDirectory w.directory = true)
    (holds : Holds w base place s.writer s.files s.textsOf emptied)
    (hne : s.writer.counts = [] → relations ≠ []) (hr : ∀ r ∈ relations, '/' ∉ r.toList)
    {result : Except WriteError Writer} (hf : s.writer.finalize s.files relations = (result, t)) :
    (∀ r, s.writtenTo r ≠ [] → read t (s.writer.path r) = .ok (s.writtenTo r)) ∧
      ∀ w', result = .ok w' → ∀ r ∈ relations, read t (s.writer.path r) = .ok (s.writtenTo r) := by
  obtain ⟨closed, t', hclosed, hreceives, hfilled, hend⟩ := holds.finalize_cases hplace hb hne hr
  have hread : ∀ r ∈ closed, read t' (s.writer.path r) = .ok (s.writtenTo r) := by
    intro r hm
    have hfits : ∀ j ∈ s.writtenTo r, j.excess? (Json.maxDepth - 1) = none :=
      fun j hj => (hp.of_mem_writtenTo hj).2.2
    have hfile := hfilled.read (hreceives r hm) (if_pos hm)
    rw [path_eq holds.directory_eq, ← hp.map_settled r]
    exact read_of_array hfits hfile
  obtain ⟨rfl, hall⟩ : t' = t ∧ ∀ w', result = .ok w' → ∀ r ∈ relations, r ∈ closed := by
    rcases hend with ⟨hok, hall⟩ | ⟨e, he⟩
    · rw [hf] at hok
      cases hok
      exact ⟨rfl, fun _ _ => hall⟩
    · rw [hf] at he
      cases he
      exact ⟨rfl, fun _ h => nomatch h⟩
  constructor
  · intro r hne
    have hm : r ∈ closed := hclosed r fun h => hne (textsOf_eq_nil_iff.1 h)
    exact hread r hm
  · intro w' hok r hm
    exact hread r (hall w' hok r hm)

theorem counts_ne_nil_of_written (holds : Holds w base place s.writer s.files s.textsOf emptied)
    (hne : s.written ≠ []) : s.writer.counts ≠ [] := by
  obtain ⟨a, ha⟩ := List.exists_mem_of_ne_nil _ hne
  have hmem : a.2 ∈ s.writtenTo a.1 := List.mem_map_of_mem (List.mem_filter.2 ⟨ha, by simp⟩)
  exact holds.counts_ne_nil fun h => List.ne_nil_of_mem hmem (textsOf_eq_nil_iff.1 h)

/-- Whatever the end of a run is given, it finds a usage of which `reads_of_finalize` speaks, or there
is nothing to read. -/
theorem Sound.reads_of_finalize (h : s.Sound) (hp : s.Proper) (hopen : s.writer.finalized = false)
    (hr : ∀ r ∈ relations, '/' ∉ r.toList) {result : Except WriteError Writer}
    (hf : s.writer.finalize s.files relations = (result, t)) :
    (∀ r, s.writtenTo r ≠ [] → read t (s.writer.path r) = .ok (s.writtenTo r)) ∧
      ∀ w', result = .ok w' → ∀ r ∈ relations, read t (s.writer.path r) = .ok (s.writtenTo r) := by
  cases h with
  | begun written_eq counts_eq unfinished =>
    have hnone := writtenTo_eq_nil written_eq
    by_cases hne : relations = []
    · exact ⟨fun r h => absurd (hnone r) h, by simp [hne]⟩
    · cases hm : s.files.makeDirectories s.writer.directory with
      | error f =>
        have hfail := Log.finalize_of_no_directory hm hne
        rw [reset_eq counts_eq unfinished, hf] at hfail
        cases hfail
        exact ⟨fun r h => absurd (hnone r) h, fun _ h => nomatch h⟩
      | ok base =>
        obtain ⟨place, hplace, hb, holds⟩ := exists_holds_of_begun written_eq counts_eq unfinished hm
        exact Usage.reads_of_finalize hp hplace hb holds (fun _ => hne) hr hf
  | writing hplace hb holds written_ne =>
    have hcounts := counts_ne_nil_of_written holds written_ne
    exact Usage.reads_of_finalize hp hplace hb holds (fun h => absurd h hcounts) hr hf
  | finished finalized_eq _ =>
    rw [finalized_eq] at hopen
    cases hopen

theorem Sound.step_finalize (h : s.Sound) (hp : s.Proper) (hr : ∀ r ∈ relations, '/' ∉ r.toList)
    (hi : (s.step (.finalize relations)).interrupted = false) :
    (s.step (.finalize relations)).Sound := by
  cases hopen : s.writer.finalized with
  | true =>
    have hf := Writer.finalize_finalized hopen s.files relations
    rw [step_finalize_ok hf]
    exact h
  | false =>
    rcases hf : s.writer.finalize s.files relations with ⟨e | w, t⟩
    · rw [step_finalize_error hf] at hi ⊢
      cases h with
      | begun written_eq counts_eq unfinished => exact .begun written_eq counts_eq unfinished
      | writing _ _ _ written_ne => simp [written_ne] at hi
      | finished finalized_eq _ =>
        rw [finalized_eq] at hopen
        cases hopen
    · rw [step_finalize_ok hf]
      have hreads := (h.reads_of_finalize hp hopen hr hf).1
      have hw := eq_of_finalize hf
      subst hw
      exact .finished rfl hreads

theorem Sound.step (h : s.Sound) (hp : s.Proper) (hc : c.IsPlain)
    (hi : (s.step c).interrupted = false) : (s.step c).Sound := by
  cases c with
  | write r fields => exact h.step_write hc.1
  | finalize relations => exact h.step_finalize hp hc hi
  | reset => exact begun_begin s.writer s.files

/-- Only a new run follows an interrupted one. -/
theorem interrupted_step (hi : (s.step c).interrupted = false) : s.interrupted = false ∨ c = .reset := by
  cases c with
  | write r fields =>
    rcases hw : s.writer.write s.files r (.ofJson (.obj fields)) with ⟨e | w, t⟩
    · rw [step_write_error hw] at hi
      exact .inl hi
    · rw [step_write_ok hw] at hi
      exact .inl hi
  | finalize relations =>
    rcases hf : s.writer.finalize s.files relations with ⟨e | w, t⟩
    · rw [step_finalize_error hf] at hi
      exact .inl (Bool.or_eq_false_iff.1 hi).1
    · rw [step_finalize_ok hf] at hi
      exact .inl hi
  | reset => exact .inr rfl

theorem sound_run (w : Writer) (files : Tree) {calls : List Call} (h : ∀ c ∈ calls, c.IsPlain)
    (hi : (run w files calls).interrupted = false) : (run w files calls).Sound := by
  induction calls using List.reverseRecOn with
  | nil => exact begun_begin w files
  | append_singleton before c ih =>
    have hbefore : ∀ d ∈ before, d.IsPlain := fun d hd => h d (List.mem_append_left _ hd)
    have hc : c.IsPlain := h c (by simp)
    rw [run, List.foldl_append] at hi ⊢
    rcases interrupted_step hi with hi' | rfl
    -- A new run is sound whatever was before it, also where the induction hypothesis is silent.
    · exact (ih hbefore hi').step (proper_run w files hbefore) hc hi
    · exact begun_begin _ _

/-! What can be read. -/

theorem readsOpen_of_holds (hp : s.Proper)
    (holds : Holds w base place s.writer s.files s.textsOf emptied) (hne : s.written ≠ []) :
    s.ReadsOpen := by
  intro r hr
  have htexts : s.textsOf r ≠ [] := fun h => hr (textsOf_eq_nil_iff.1 h)
  constructor
  · obtain ⟨t, -, hsame, hfilled⟩ := holds.made
    rw [hsame (counts_ne_nil_of_written holds hne), path_eq holds.directory_eq]
    have hfile := hfilled.read (holds.received r htexts) (if_neg htexts)
    exact readText_of_read (return_not_mem_openArray fun _ => return_not_mem_of_rendered) hfile
  · intro n ending hending
    have hseparator : ∀ d ∈ [',', '\n'], isOpenEnd d = true := by
      rw [List.forall_mem_cons, List.forall_mem_singleton]
      decide
    have hopen : ∀ d ∈ ending, isOpenEnd d = true := fun d hd => hseparator d (hending.subset hd)
    have hfits : ∀ j ∈ (s.writtenTo r).take n, j.excess? (Json.maxDepth - 1) = none :=
      fun j hj => (hp.of_mem_writtenTo (List.mem_of_mem_take hj)).2.2
    have hobject : ∀ j ∈ (s.writtenTo r).take n, ∃ fields, j = .obj fields :=
      fun j hj => (hp.of_mem_writtenTo (List.mem_of_mem_take hj)).1
    have hparse := @parse_openArray s.writer.indent _ hfits hobject (s.writer.path r).text _ hopen
    rw [List.map_take, List.map_take, hp.map_settled] at hparse
    exact hparse

theorem ReadsOpen.readsBack (h : s.ReadsOpen) : s.ReadsBack := by
  intro r hr
  obtain ⟨hfile, hparse⟩ := h r hr
  have hall := hparse (s.writtenTo r).length [] List.nil_prefix
  have hlength : (s.textsOf r).length = (s.writtenTo r).length := List.length_map _
  rw [List.append_nil, ← hlength, List.take_length, hlength, List.take_length] at hall
  rw [read, hfile]
  exact hall

theorem Sound.readsOpen (h : s.Sound) (hp : s.Proper) (hopen : s.writer.finalized = false) :
    s.ReadsOpen := by
  cases h with
  | begun written_eq _ _ => exact fun r hr => absurd (writtenTo_eq_nil written_eq r) hr
  | writing _ _ holds written_ne => exact readsOpen_of_holds hp holds written_ne
  | finished finalized_eq _ =>
    rw [finalized_eq] at hopen
    cases hopen

theorem Sound.readsBack (h : s.Sound) (hp : s.Proper) : s.ReadsBack := by
  cases h with
  | begun written_eq _ _ => exact .of_written written_eq
  | writing _ _ holds written_ne => exact (readsOpen_of_holds hp holds written_ne).readsBack
  | finished _ reads => exact reads

theorem foldl_step_of_finalized (hf : s.writer.finalized = true) {later : List Call}
    (hlater : Call.reset ∉ later) : later.foldl Usage.step s = s := by
  induction later with
  | nil => rfl
  | cons c later ih =>
    have hsame : s.step c = s := by
      cases c with
      | write r fields => exact step_write_error (Writer.write_finalized hf _ _ _)
      | finalize relations => exact step_finalize_ok (Writer.finalize_finalized hf _ _)
      | reset => simp at hlater
    rw [List.foldl_cons, hsame]
    exact ih fun h => hlater (List.mem_cons_of_mem c h)

theorem Sound.readsBack_step (h : s.Sound) (hp : s.Proper) (hi : s.interrupted = false)
    (hc : c.IsPlain) : (s.step c).ReadsBack := by
  have hnext : (s.step c).interrupted = false → (s.step c).ReadsBack :=
    fun hi => (h.step hp hc hi).readsBack (hp.step hc)
  cases c with
  | write r fields =>
    rcases hw : s.writer.write s.files r (.ofJson (.obj fields)) with ⟨e | w, t⟩
    · exact hnext (by rw [step_write_error hw]; exact hi)
    · exact hnext (by rw [step_write_ok hw]; exact hi)
  | finalize relations =>
    rcases hf : s.writer.finalize s.files relations with ⟨e | w, t⟩
    · -- The attempt fails, but the arrays are closed by then.
      have hopen : s.writer.finalized = false := by
        rw [Bool.eq_false_iff]
        intro hfinalized
        rw [Writer.finalize_finalized hfinalized] at hf
        cases hf
      rw [step_finalize_error hf]
      exact (h.reads_of_finalize hp hopen hc hf).1
    · exact hnext (by rw [step_finalize_ok hf]; exact hi)
  | reset => exact .of_written rfl

theorem Sound.ended (h : s.Sound) (hp : s.Proper) (hr : ∀ r ∈ relations, '/' ∉ r.toList)
    (hopen : s.writer.finalized = false) (hf : s.writer.finalize s.files relations = (.ok w', t')) :
    (s.step (.finalize relations)).Ended relations := by
  have hreads := (h.reads_of_finalize hp hopen hr hf).2 w' rfl
  rw [step_finalize_ok hf]
  have hw := eq_of_finalize hf
  subst hw
  exact ⟨hreads, fun later hlater => foldl_step_of_finalized rfl hlater,
    fun r record => Writer.write_finalized rfl _ _ _⟩

/-- However a writer is used, all records of the run are read back at every moment until an attempt to
end the run has failed: while the arrays are open, also where a file is cut off between records, and at
the end. What ends a run well gives each of its relations a file, and nothing changes after that. -/
theorem run_reads_back (w : Writer) (files : Tree) {calls : List Call}
    (hcalls : ∀ c ∈ calls, c.IsPlain) (hi : (run w files calls).interrupted = false) :
    (run w files calls).ReadsBack ∧
    ((run w files calls).writer.finalized = false → (run w files calls).ReadsOpen) ∧
    (∀ c : Call, c.IsPlain → ((run w files calls).step c).ReadsBack) ∧
    ∀ relations w' t', (∀ r ∈ relations, '/' ∉ r.toList) →
      (run w files calls).writer.finalized = false →
      (run w files calls).writer.finalize (run w files calls).files relations = (.ok w', t') →
      ((run w files calls).step (.finalize relations)).Ended relations := by
  have hp := proper_run w files hcalls
  have hs := sound_run w files hcalls hi
  exact ⟨hs.readsBack hp, hs.readsOpen hp, fun c hc => hs.readsBack_step hp hi hc,
    fun relations w' t' hr hopen hf => hs.ended hp hr hopen hf⟩

/-- What a usage is like after some calls, where no file for the relation `b` can be written. -/
def usageOf (calls : List Call) : Usage :=
  run ⟨.ofText "out", some 2, [], false⟩
    ⟨[(.ofText "out", .directory), (.ofText "out/b.json", .directory)]⟩ calls

theorem usageOf_write_write :
    (∀ c ∈ [Call.write "a" [], .write "a" [("x", .int 1)]], c.IsPlain) ∧
    (usageOf [.write "a" [], .write "a" [("x", .int 1)]]).interrupted = false ∧
    (usageOf [.write "a" [], .write "a" [("x", .int 1)]]).ReadsOpen := by
  have hcalls : ∀ c ∈ [Call.write "a" [], .write "a" [("x", .int 1)]], c.IsPlain := by
    have hname : '/' ∉ "a".toList := by decide
    rw [List.forall_mem_cons, List.forall_mem_singleton]
    constructor
    · exact ⟨hname, List.nodup_nil, trivial⟩
    · exact ⟨hname, by decide, trivial, trivial⟩
  have hi : (usageOf [.write "a" [], .write "a" [("x", .int 1)]]).interrupted = false := by
    decide
  have hopen : (usageOf [.write "a" [], .write "a" [("x", .int 1)]]).writer.finalized = false := by
    decide
  exact ⟨hcalls, hi, (run_reads_back _ _ hcalls hi).2.1 hopen⟩

/-- After a failed attempt to end the run a record is added after the end of its array, and another
attempt ends the array twice. -/
theorem usageOf_finalize :
    ¬(usageOf [.write "a" [], .finalize ["b"], .write "a" [("x", .int 1)]]).ReadsBack ∧
    ¬(usageOf [.write "a" [], .finalize ["b"], .finalize ["b"]]).ReadsBack := by
  constructor
  · intro h
    have hne : (usageOf [.write "a" [], .finalize ["b"], .write "a" [("x", .int 1)]]).writtenTo "a" ≠
      [] := by decide
    have hread := h "a" hne
    revert hread
    decide
  · intro h
    have hne : (usageOf [.write "a" [], .finalize ["b"], .finalize ["b"]]).writtenTo "a" ≠ [] := by
      decide
    have hread := h "a" hne
    revert hread
    decide

end Usage
end BackendMigration.Relation
