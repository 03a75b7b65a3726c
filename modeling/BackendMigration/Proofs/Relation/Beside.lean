import BackendMigration.Proofs.Relation.Listing

/-! The same records written to two trees: to one in which the directory has nothing in it, and to
another one. -/
namespace BackendMigration.Relation

open File File.Tree Text

/-- Two trees have the directory of a writer, and nothing is in it in one of them. -/
structure Beside (run : Writer) (base bare : Tree) (place : Path) : Prop where
  directory : base.isDirectory run.directory = true
  directory_bare : bare.isDirectory run.directory = true
  resolve_eq : base.resolve run.directory = .ok place
  resolve_bare : bare.resolve run.directory = .ok place
  empty : ∀ name, bare.node? (place.child name) = none

/-- Something stands in a tree where another one has a directory in place of the file of a relation. -/
def Obstructed (run : Writer) (base : Tree) (place : Path) (t : Tree) : Prop :=
  ∃ r, sanitize r = r ∧ base.isDirectory (run.path r) = true ∧ t.node? (jsonFile place r) ≠ none

theorem lasting_obstructed (run : Writer) (base : Tree) (place : Path) :
    Lasting (Obstructed run base place) := by
  constructor
  · rintro u u' p ⟨r, hr, hd, hstands⟩ hm
    exact ⟨r, hr, hd, (lasting_stands _).make hstands hm⟩
  · rintro u u' p bytes ⟨r, hr, hd, hstands⟩ hw
    exact ⟨r, hr, hd, (lasting_stands _).write hstands hw⟩

/-- Two trees hold the same records of a run, and the same files are emptied. -/
def HoldBoth (run : Writer) (base bare : Tree) (place : Path) (w : Writer) (files files' : Tree) :
    Prop :=
  ∃ records emptied, Holds run base place w files records emptied ∧
    Holds run bare place w files' records emptied

/-- The same files are written in two trees. -/
def FilledBoth (base bare : Tree) (place : Path) (t t' : Tree) : Prop :=
  ∃ texts, Filled base place texts t ∧ Filled bare place texts t'

theorem fst_counted (w : Writer) (r : String) (n : Nat) {x y : Except ContentsFault Unit × Tree}
    (h : x.1 = y.1) : (w.counted r n x).1 = (w.counted r n y).1 := by
  obtain ⟨outcome, t⟩ := x
  obtain ⟨outcome', t'⟩ := y
  obtain rfl : outcome = outcome' := h
  cases outcome <;> rfl

theorem write_of_no_text {w : Writer} {e : Document.EncodeError} {record : Document.Value}
    (hopen : w.finalized = false) (h : Writer.recordText w.indent record = .error e) (t : Tree)
    (r : String) : w.write t r record = (.error (.record e), t) := by
  rw [Writer.write, hopen, h]
  rfl

theorem node?_writeText_of_receives {t : Tree} {p q : Path} (h : t.Receives p q) (text : Text) :
    (t.writeText p text).2.node? q ≠ none := by
  unfold writeText
  dsimp only
  rw [h.write]
  dsimp only
  rw [node?_setNode_self h.not_directory]
  exact Option.some_ne_none _

namespace Beside

variable {run w : Writer} {base bare t t' files files' : Tree} {place : Path} {r : String}
  {texts : String → Option Text} {records : String → List Text} {emptied : List String}

theorem of_childNames (hd : base.isDirectory run.directory = true)
    (hd' : bare.isDirectory run.directory = true) (hempty : bare.childNames run.directory = []) :
    Beside run base bare run.directory.goal := by
  obtain ⟨place, hplace, -⟩ := isDirectory_iff.1 hd
  obtain ⟨place', hplace', -⟩ := isDirectory_iff.1 hd'
  obtain rfl := goal_of_resolve hplace
  obtain rfl := goal_of_resolve hplace'
  refine ⟨hd, hd', hplace, hplace', fun name => ?_⟩
  by_contra hnode
  have hmem := (mem_childNames hplace').2 hnode
  rw [hempty] at hmem
  exact List.not_mem_nil hmem

theorem node?_bare (e : Beside run base bare place) (r : String) :
    bare.node? (jsonFile place r) ≠ some .directory := by
  rw [jsonFile, e.empty]
  intro h
  cases h

/-- The path of a relation's file leads to the same place in all trees that have the directory. -/
theorem resolve_path (hd : t.isDirectory run.directory = true)
    (hd' : t'.isDirectory run.directory = true) (hr : '/' ∉ r.toList) :
    t.resolve (run.path r) = t'.resolve (run.path r) := by
  rw [path_eq_child run hr, resolve_child hd, resolve_child hd']

/-- Where that path leads anywhere, the file can be written if it is no directory. -/
theorem receives (hplace : t.resolve run.directory = .ok place)
    (hd : t.isDirectory run.directory = true) (hr : '/' ∉ r.toList)
    (hfree : t.node? (jsonFile place r) ≠ some .directory) {q : Path}
    (hq : t.resolve (run.path r) = .ok q) : t.Receives (run.path r) (jsonFile place r) := by
  obtain rfl := eq_jsonFile_of_resolve hplace hr hq
  obtain ⟨place', hplace', hnode⟩ := isDirectory_iff.1 hd
  rw [hplace] at hplace'
  cases hplace'
  refine ⟨hq, hfree, ?_⟩
  rw [jsonFile, Path.parent_child]
  exact hnode

theorem isDirectory_path (e : Beside run base bare place) (hr : '/' ∉ r.toList)
    (hd : base.node? (jsonFile place r) = some .directory) {q : Path}
    (hq : base.resolve (run.path r) = .ok q) : base.isDirectory (run.path r) = true := by
  obtain rfl := eq_jsonFile_of_resolve e.resolve_eq hr hq
  exact isDirectory_iff.2 ⟨_, hq, hd⟩

/-! A record that is written to both trees. -/

section write

variable {record : Document.Value} {text : Text}

theorem fst_write_of_receives (h : Holds run base place w files records emptied)
    (h' : Holds run bare place w files' records emptied)
    (htext : Writer.recordText run.indent record = .ok text)
    (hreceives : base.Receives (run.path r) (jsonFile place r))
    (hreceives' : bare.Receives (run.path r) (jsonFile place r)) :
    (w.write files r record).1 = (w.write files' r record).1 := by
  obtain ⟨t, hm, hsame, hfilled⟩ := h.made
  obtain ⟨t', hm', hsame', hfilled'⟩ := h'.made
  have ht := hfilled.receives hreceives
  have ht' := hfilled'.receives hreceives'
  by_cases he : records r = []
  · rw [h.write_first htext he hm, h'.write_first htext he hm']
    apply fst_counted
    rw [fst_writeText_of_receives ht, fst_writeText_of_receives ht']
  · rw [h.write_next htext he, h'.write_next htext he, hsame (h.counts_ne_nil he),
      hsame' (h'.counts_ne_nil he)]
    apply fst_counted
    rw [fst_appendText_of_receives ht, fst_appendText_of_receives ht']

theorem fst_write_of_resolve_error (e : Beside run base bare place)
    (h : Holds run base place w files records emptied)
    (h' : Holds run bare place w files' records emptied) (hr : '/' ∉ r.toList)
    (htext : Writer.recordText run.indent record = .ok text) {cause : Cause}
    (hcause : bare.resolve (run.path r) = .error cause) :
    (w.write files r record).1 = (w.write files' r record).1 := by
  obtain ⟨t, hm, -, hfilled⟩ := h.made
  obtain ⟨t', hm', -, hfilled'⟩ := h'.made
  have hd := isDirectory_of_keeps hfilled.directories e.directory
  have hd' := isDirectory_of_keeps hfilled'.directories e.directory_bare
  have ht := (resolve_path hd e.directory_bare hr).trans hcause
  have ht' := (resolve_path hd' e.directory_bare hr).trans hcause
  have he : records r = [] := by
    by_contra hne
    have hresolve := (h'.received r hne).resolve_eq
    rw [hcause] at hresolve
    cases hresolve
  rw [h.write_first htext he hm, h'.write_first htext he hm']
  apply fst_counted
  rw [writeText_of_resolve_error ht, writeText_of_resolve_error ht']

/-- If the record is written to both trees or to none of them, they still hold the same records. -/
theorem holdBoth_write (e : Beside run base bare place)
    (h : Holds run base place w files records emptied)
    (h' : Holds run bare place w files' records emptied) (hr : '/' ∉ r.toList)
    (hreceives : Writable run.indent record → (base.Receives (run.path r) (jsonFile place r) ↔
      bare.Receives (run.path r) (jsonFile place r)))
    (hfst : (w.write files r record).1 = (w.write files' r record).1) :
    HoldBoth run base bare place ((w.write files r record).1.toOption.getD w)
      (w.write files r record).2 (w.write files' r record).2 := by
  by_cases hwritten : Writable run.indent record ∧ base.Receives (run.path r) (jsonFile place r)
  · obtain ⟨hwritable, hb⟩ := hwritten
    have hb' := (hreceives hwritable).1 hb
    obtain ⟨text, ht, hn⟩ := hwritable
    obtain ⟨w₁, t, heq, hholds⟩ := h.write e.directory hb ht hn
    obtain ⟨w₁', t', heq', hholds'⟩ := h'.write e.directory_bare hb' ht hn
    rw [heq, heq'] at hfst
    cases hfst
    rw [heq, heq']
    exact ⟨_, _, hholds, hholds'⟩
  · have hnot' : ¬(Writable run.indent record ∧ bare.Receives (run.path r) (jsonFile place r)) :=
      fun ⟨hw, hb⟩ => hwritten ⟨hw, (hreceives hw).2 hb⟩
    obtain ⟨f, t, heq, hholds⟩ :=
      (h.write_cases e.resolve_eq e.directory hr record).resolve_left hwritten
    obtain ⟨f', t', heq', hholds'⟩ :=
      (h'.write_cases e.resolve_bare e.directory_bare hr record).resolve_left hnot'
    rw [heq, heq'] at hfst
    cases hfst
    rw [heq, heq']
    exact ⟨_, _, hholds, hholds'⟩

/-- Where nothing was, the file of a record is written at least when its path leads anywhere. -/
theorem node?_write_ne_none (h : Holds run bare place w files' records emptied)
    (htext : Writer.recordText run.indent record = .ok text)
    (hreceives : bare.Receives (run.path r) (jsonFile place r)) (he : records r = []) :
    (w.write files' r record).2.node? (jsonFile place r) ≠ none := by
  obtain ⟨t, hm, -, hfilled⟩ := h.made
  have hsnd (x : Except ContentsFault Unit × Tree) : (w.counted r 1 x).2 = x.2 := by
    obtain ⟨outcome, t⟩ := x
    cases outcome <;> rfl
  rw [h.write_first htext he hm, hsnd]
  exact node?_writeText_of_receives (hfilled.receives hreceives) _

/-- A record is written to both trees or fails alike in both, unless in the empty directory it has made
a file where the other tree has a directory. -/
theorem write (e : Beside run base bare place) (h : HoldBoth run base bare place w files files')
    (hr : sanitize r = r) (record : Document.Value) :
    Obstructed run base place (w.write files' r record).2 ∨
      (w.write files r record).1 = (w.write files' r record).1 ∧
        HoldBoth run base bare place ((w.write files r record).1.toOption.getD w)
          (w.write files r record).2 (w.write files' r record).2 := by
  obtain ⟨records, emptied, h, h'⟩ := h
  have hslash := slash_not_mem_of_sanitize hr
  cases htext : Writer.recordText run.indent record with
  | error f =>
    have hfst : (w.write files r record).1 = (w.write files' r record).1 := by
      rw [write_of_no_text h.unfinished (h.indent_eq ▸ htext),
        write_of_no_text h'.unfinished (h'.indent_eq ▸ htext)]
    refine .inr ⟨hfst, e.holdBoth_write h h' hslash (fun ⟨text, ht, _⟩ => ?_) hfst⟩
    rw [htext] at ht
    cases ht
  | ok text =>
    cases hresolve : bare.resolve (run.path r) with
    | error cause =>
      have hfst := e.fst_write_of_resolve_error h h' hslash htext hresolve
      refine .inr ⟨hfst, e.holdBoth_write h h' hslash (fun _ => ?_) hfst⟩
      have hbase := (resolve_path e.directory e.directory_bare hslash).trans hresolve
      constructor
      · intro hreceives
        rw [hreceives.resolve_eq] at hbase
        cases hbase
      · intro hreceives
        rw [hreceives.resolve_eq] at hresolve
        cases hresolve
    | ok q =>
      have hreceives' := receives e.resolve_bare e.directory_bare hslash (e.node?_bare r) hresolve
      have hbase := (resolve_path e.directory e.directory_bare hslash).trans hresolve
      by_cases hoccupied : base.node? (jsonFile place r) = some .directory
      · have he : records r = [] := by
          by_contra hne
          exact (h.received r hne).not_directory hoccupied
        exact .inl ⟨r, hr, e.isDirectory_path hslash hoccupied hbase,
          node?_write_ne_none h' htext hreceives' he⟩
      · have hreceives := receives e.resolve_eq e.directory hslash hoccupied hbase
        have hfst := fst_write_of_receives h h' htext hreceives hreceives'
        exact .inr ⟨hfst, e.holdBoth_write h h' hslash
          (fun _ => iff_of_true hreceives hreceives') hfst⟩

end write

/-! The end of a run in both trees. -/

theorem emptyAll (e : Beside run base bare place) (hdirectory : w.directory = run.directory)
    {names : List String} (hr : ∀ r ∈ names, sanitize r = r)
    (h : FilledBoth base bare place t t') :
    Obstructed run base place (w.emptyAll t' names).2 ∨
      (w.emptyAll t names).1 = (w.emptyAll t' names).1 ∧
        FilledBoth base bare place (w.emptyAll t names).2 (w.emptyAll t' names).2 := by
  induction names generalizing t t' with
  | nil => exact .inr ⟨rfl, h⟩
  | cons r rest ih =>
    obtain ⟨texts, hfilled, hfilled'⟩ := h
    have hname := hr r List.mem_cons_self
    have hslash := slash_not_mem_of_sanitize hname
    have hd := isDirectory_of_keeps hfilled.directories e.directory
    have hd' := isDirectory_of_keeps hfilled'.directories e.directory_bare
    rw [emptyAll_cons, emptyAll_cons, path_eq hdirectory]
    cases hresolve : bare.resolve (run.path r) with
    | error cause =>
      have ht := (resolve_path hd e.directory_bare hslash).trans hresolve
      have ht' := (resolve_path hd' e.directory_bare hslash).trans hresolve
      rw [writeText_of_resolve_error ht, writeText_of_resolve_error ht']
      exact .inr ⟨rfl, texts, hfilled, hfilled'⟩
    | ok q =>
      have hreceives' := receives e.resolve_bare e.directory_bare hslash (e.node?_bare r) hresolve
      have hwrite' := writeText_of_receives (hfilled'.receives hreceives') noHalves_arrayEnd.2
      have hbase := (resolve_path e.directory e.directory_bare hslash).trans hresolve
      rw [hwrite']
      by_cases hoccupied : base.node? (jsonFile place r) = some .directory
      · have hstands : (t'.setNode (jsonFile place r) (.ofText "[]\n".toList)).node?
            (jsonFile place r) ≠ none := by
          rw [node?_setNode_self (hfilled'.receives hreceives').not_directory]
          exact Option.some_ne_none _
        exact .inl (w.lasting_emptyAll (lasting_obstructed run base place)
          ⟨r, hname, e.isDirectory_path hslash hoccupied hbase, hstands⟩ rest)
      · have hreceives := receives e.resolve_eq e.directory hslash hoccupied hbase
        rw [writeText_of_receives (hfilled.receives hreceives) noHalves_arrayEnd.2]
        exact ih (fun r hm => hr r (List.mem_cons_of_mem _ hm))
          ⟨_, hfilled.setNode hreceives.not_directory _, hfilled'.setNode hreceives'.not_directory _⟩

theorem finalize (e : Beside run base bare place) (h : HoldBoth run base bare place w files files')
    {relations : List String} (hne : relations ≠ []) (hr : ∀ r ∈ relations, sanitize r = r) :
    Obstructed run base place (w.finalize files' relations).2 ∨
      (w.finalize files relations).1 = (w.finalize files' relations).1 ∧
        FilledBoth base bare place (w.finalize files relations).2
          (w.finalize files' relations).2 := by
  obtain ⟨records, emptied, h, h'⟩ := h
  obtain ⟨t, hfilled, heq⟩ := h.exists_finalize_eq e.directory fun _ => hne
  obtain ⟨t', hfilled', heq'⟩ := h'.exists_finalize_eq e.directory_bare fun _ => hne
  have hnames : ∀ r ∈ relations.filter (fun r => !Keyed.has r w.counts), sanitize r = r :=
    fun r hm => hr r (List.mem_filter.1 hm).1
  have hempty := e.emptyAll h.directory_eq hnames ⟨_, hfilled, hfilled'⟩
  rw [heq, heq']
  generalize w.emptyAll t _ = end₁ at hempty ⊢
  generalize w.emptyAll t' _ = end₂ at hempty ⊢
  obtain ⟨outcome, u⟩ := end₁
  obtain ⟨outcome', u'⟩ := end₂
  rcases hempty with hobstructed | ⟨rfl, hboth⟩
  · left
    cases outcome' <;> exact hobstructed
  · right
    cases outcome with
    | error f => exact ⟨rfl, hboth⟩
    | ok => exact ⟨rfl, hboth⟩

/-- What then stands at the file of a relation in the empty directory stands there in the other tree. -/
theorem node?_eq (e : Beside run base bare place) (h : FilledBoth base bare place t t')
    (hstands : t'.node? (jsonFile place r) ≠ none) :
    t.node? (jsonFile place r) = t'.node? (jsonFile place r) := by
  obtain ⟨texts, hfilled, hfilled'⟩ := h
  cases htext : texts r with
  | some text => rw [hfilled.file r text htext, hfilled'.file r text htext]
  | none =>
    have hother := hfilled'.other (jsonFile place r) fun name hname he => hname (by
      rw [← jsonFile_inj he, htext])
    rw [hother, jsonFile, e.empty] at hstands
    exact absurd rfl hstands

theorem read_eq (e : Beside run base bare place) (h : FilledBoth base bare place t t')
    (hr : sanitize r = r) (hfile : t'.isFile (run.path r) = true) :
    t.read (run.path r) = t'.read (run.path r) := by
  obtain ⟨texts, hfilled, hfilled'⟩ := h
  have hd := isDirectory_of_keeps hfilled.directories e.directory
  have hd' := isDirectory_of_keeps hfilled'.directories e.directory_bare
  have hslash := slash_not_mem_of_sanitize hr
  obtain ⟨q, bytes, hq, hnode⟩ := isFile_iff.1 hfile
  obtain rfl := eq_jsonFile_of_resolve e.resolve_eq hslash hq
  have hstands : t'.node? (jsonFile place r) ≠ none := by
    rw [hnode]
    exact Option.some_ne_none _
  have hsame := e.node?_eq ⟨texts, hfilled, hfilled'⟩ hstands
  have hresolve := (resolve_path hd hd' hslash).trans hq
  rw [read_of_node? hq hnode, read_of_node? hresolve (hsame.trans hnode)]

/-- What stands in the empty directory after files were written there is a file. -/
theorem isFile_of_stands (e : Beside run base bare place) (h : Filled bare place texts t)
    (hr : sanitize r = r) (hoccupied : base.isDirectory (run.path r) = true)
    (hstands : t.node? (jsonFile place r) ≠ none) : t.isFile (run.path r) = true := by
  have hslash := slash_not_mem_of_sanitize hr
  have hd := isDirectory_of_keeps h.directories e.directory_bare
  obtain ⟨q, hq, -⟩ := isDirectory_iff.1 hoccupied
  obtain rfl := eq_jsonFile_of_resolve e.resolve_eq hslash hq
  have hresolve := (resolve_path hd e.directory hslash).trans hq
  obtain ⟨node, hnode⟩ := Option.ne_none_iff_exists'.1 hstands
  cases node with
  | directory => exact absurd hnode (h.not_directory (e.node?_bare r))
  | file bytes => exact isFile_iff.2 ⟨_, bytes, hresolve, hnode⟩

/-- Before the empty directory was made no relation had a file in it. -/
theorem isFile_eq_false (e : Beside run base bare place) (h : Extends t bare) (hr : sanitize r = r) :
    t.isFile (run.path r) = false := by
  refine Bool.eq_false_iff.2 fun hfile => ?_
  obtain ⟨q, bytes, hq, hnode⟩ := isFile_iff.1 hfile
  obtain rfl := eq_jsonFile_of_resolve e.resolve_eq (slash_not_mem_of_sanitize hr) hq
  have hstands : t.node? (jsonFile place r) ≠ none := by
    rw [hnode]
    exact Option.some_ne_none _
  have hbare := h _ hstands
  rw [jsonFile, e.empty] at hbare
  exact hstands hbare.symm

end Beside
end BackendMigration.Relation
