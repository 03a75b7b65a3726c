import BackendMigration.Proofs.Relation.Writer

/-! A run of a writer: from the first record to the closed arrays. -/
namespace BackendMigration.Relation

open File File.Tree Text

variable {run w : Writer} {base files t : Tree} {place : Path} {records : String → List Text}
  {emptied : List String}

/-- What the file of a relation holds while records are written; that of a relation without records
is as it was or emptied. -/
def heldText (records : String → List Text) (emptied : List String) (r : String) : Option Text :=
  if records r = [] then if r ∈ emptied then some [] else none else some (openArray (records r))

/-- The file of each relation holds an open array of the records written so far, and besides some
emptied files nothing else changed since the directory was made. -/
structure Holds (run : Writer) (base : Tree) (place : Path) (w : Writer) (files : Tree)
    (records : String → List Text) (emptied : List String) : Prop where
  directory_eq : w.directory = run.directory
  indent_eq : w.indent = run.indent
  unfinished : w.finalized = false
  nodup : (Keyed.keys w.counts).Nodup
  counts : ∀ r, Keyed.get? r w.counts = if records r = [] then none else some (records r).length
  received : ∀ r, records r ≠ [] → base.Receives (run.path r) (jsonFile place r)
  made : ∃ t, files.makeDirectories run.directory = .ok t ∧ (w.counts ≠ [] → files = t) ∧
    Filled base place (heldText records emptied) t

theorem Holds.congr {records' : String → List Text} (h : Holds run base place w files records emptied)
    (he : ∀ r, records' r = records r) : Holds run base place w files records' emptied := by
  have : records' = records := funext he
  rwa [this]

/-- A run begins without records. -/
theorem Holds.begin (h : files.makeDirectories w.directory = .ok base) :
    Holds w base place w.reset files (fun _ => []) [] :=
  ⟨rfl, rfl, rfl, List.nodup_nil, fun _ => rfl, fun _ hn => absurd rfl hn, base, h,
    fun hn => absurd rfl hn, (Filled.empty base place).congr fun _ => rfl⟩

theorem path_eq (h : w.directory = run.directory) (r : String) : w.path r = run.path r := by
  rw [Writer.path, h, Writer.path]

theorem mem_keys_iff {α : Type} {r : String} {es : Keyed α} :
    r ∈ Keyed.keys es ↔ Keyed.get? r es ≠ none := by
  simp [Keyed.get?, Keyed.keys]

/-- The first record of a relation is written after the directory is made. -/
theorem Holds.write_first (h : Holds run base place w files records emptied) {r : String}
    {record : Document.Value} {text : Text} (ht : Writer.recordText run.indent record = .ok text)
    (he : records r = []) (hm : files.makeDirectories run.directory = .ok t) :
    w.write files r record = w.counted r 1 (t.writeText (run.path r) (['[', '\n'] ++ text)) := by
  have hc := h.counts r
  rw [if_pos he] at hc
  rw [Writer.write, h.unfinished, h.indent_eq, ht, hc, h.directory_eq, hm, path_eq h.directory_eq]
  simp only [Bool.false_eq_true, if_false, List.cons_append, List.nil_append]

/-- The other ones are added to the file. -/
theorem Holds.write_next (h : Holds run base place w files records emptied) {r : String}
    {record : Document.Value} {text : Text} (ht : Writer.recordText run.indent record = .ok text)
    (he : records r ≠ []) :
    w.write files r record =
      w.counted r ((records r).length + 1) (files.appendText (run.path r) ([',', '\n'] ++ text)) := by
  have hc := h.counts r
  rw [if_neg he] at hc
  rw [Writer.write, h.unfinished, h.indent_eq, ht, hc, path_eq h.directory_eq]
  simp only [Bool.false_eq_true, if_false, List.cons_append, List.nil_append]

theorem Holds.counts_ne_nil (h : Holds run base place w files records emptied) {r : String}
    (he : records r ≠ []) : w.counts ≠ [] := by
  intro hc
  have := h.counts r
  rw [if_neg he, hc] at this
  cases this

/-- One record more is written to its relation. -/
theorem Holds.write (h : Holds run base place w files records emptied)
    (hb : base.isDirectory run.directory = true) {r : String}
    (hr : base.Receives (run.path r) (jsonFile place r)) {record : Document.Value} {text : Text}
    (ht : Writer.recordText run.indent record = .ok text) (hn : text.NoHalves) :
    ∃ w' files', w.write files r record = (.ok w', files') ∧
      Holds run base place w' files' (fun s => if s = r then records r ++ [text] else records s)
        emptied := by
  obtain ⟨t, hm, hsame, hfilled⟩ := h.made
  have hreceives := hfilled.receives hr
  have hlines : NoHalves ['[', '\n'] ∧ NoHalves [',', '\n'] := by decide
  have hkeys : (Keyed.keys (Keyed.set r ((records r).length + 1) w.counts)).Nodup :=
    Keyed.nodup_keys_set _ _ h.nodup
  have hcounts : ∀ s, Keyed.get? s (Keyed.set r ((records r).length + 1) w.counts) =
      if (if s = r then records r ++ [text] else records s) = [] then none
      else some (if s = r then records r ++ [text] else records s).length := by
    intro s
    rw [Keyed.get?_set]
    by_cases hs : s = r
    · simp [hs]
    · simp only [hs, if_false]
      exact h.counts s
  have hdone (text' : Text) (he : text' = openArray (records r ++ [text])) :
      Holds run base place { w with counts := Keyed.set r ((records r).length + 1) w.counts }
        (t.setNode (jsonFile place r) (.ofText text'))
        (fun s => if s = r then records r ++ [text] else records s) emptied := by
    have hset := hfilled.setNode hr.not_directory text'
    refine ⟨h.directory_eq, h.indent_eq, h.unfinished, hkeys, hcounts, fun s hs => ?_, _,
      makeDirectories_of_isDirectory (isDirectory_of_keeps hset.directories hb), fun _ => rfl,
      hset.congr fun s => ?_⟩
    · by_cases he : s = r
      · exact he ▸ hr
      · rw [if_neg he] at hs
        exact h.received s hs
    · by_cases hs : s = r
      · simp [heldText, hs, he]
      · simp [heldText, hs]
  -- Only the first record of a relation replaces the file, and the directory may be made for it.
  by_cases he : records r = []
  · have hwrite := writeText_of_receives hreceives (noHalves_append.2 ⟨hlines.1, hn⟩)
    refine ⟨_, _, ?_, hdone (['[', '\n'] ++ text) ?_⟩
    · rw [h.write_first ht he hm, hwrite, Writer.counted, he]
      rfl
    · rw [he]
      rfl
  · have hnode := hfilled.file r (openArray (records r)) (if_neg he)
    have happend := appendText_of_receives hreceives hnode (noHalves_append.2 ⟨hlines.2, hn⟩)
    refine ⟨_, _, ?_, hdone (openArray (records r) ++ ',' :: '\n' :: text) ?_⟩
    · rw [h.write_next ht he, hsame (h.counts_ne_nil he), happend, Writer.counted]
      rfl
    · rw [openArray_concat he]

/-! A record that is not written. -/

/-- The file of the record was opened before it turned out that the record has no bytes. -/
def WriteError.isUnwritable : WriteError → Bool
  | .file (.unwritable _) => true
  | _ => false

/-- The record is at fault: it has no text, or its text has no bytes. -/
def WriteError.isOfRecord : WriteError → Bool
  | .record _ => true
  | e => e.isUnwritable

theorem Holds.of_filled {emptied' : List String} (h : Holds run base place w files records emptied)
    (hb : base.isDirectory run.directory = true)
    (hf : Filled base place (heldText records emptied') t) :
    Holds run base place w t records emptied' :=
  { h with
    made := ⟨t, makeDirectories_of_isDirectory (isDirectory_of_keeps hf.directories hb),
      fun _ => rfl, hf⟩ }

/-- A file can be written now if that was so at first. -/
theorem receives_iff {texts : String → Option Text} (hf : Filled base place texts t)
    (hplace : base.resolve run.directory = .ok place) {r : String} (hr : '/' ∉ r.toList) :
    (∃ q, t.Receives (run.path r) q) ↔ base.Receives (run.path r) (jsonFile place r) := by
  constructor
  · rintro ⟨q, hq⟩
    obtain rfl := eq_jsonFile_of_receives (resolve_of_keeps hf.directories hplace) hr hq
    exact hf.receives_base hq
  · exact fun h => ⟨_, hf.receives h⟩

/-- A record is written unless it has no bytes or its file cannot be opened. Else its relation has no
record more, and its file is emptied at most. -/
theorem Holds.write_cases (h : Holds run base place w files records emptied)
    (hplace : base.resolve run.directory = .ok place) (hb : base.isDirectory run.directory = true)
    {r : String} (hr : '/' ∉ r.toList) (record : Document.Value) :
    (Writable run.indent record ∧ base.Receives (run.path r) (jsonFile place r)) ∨
      ∃ e files', w.write files r record = (.error e, files') ∧
        Holds run base place w files' records (if e.isUnwritable then r :: emptied else emptied) := by
  obtain ⟨t, hm, hsame, hfilled⟩ := h.made
  cases htext : Writer.recordText run.indent record with
  | error e =>
    refine .inr ⟨.record e, files, ?_, h⟩
    rw [Writer.write, h.unfinished, h.indent_eq, htext]
    rfl
  | ok text =>
    by_cases hreceives : base.Receives (run.path r) (jsonFile place r)
    · by_cases hn : text.NoHalves
      · exact .inl ⟨⟨text, htext, hn⟩, hreceives⟩
      · have hline (s : Text) : ¬NoHalves (s ++ text) := fun hl => hn (noHalves_append.1 hl).2
        right
        by_cases he : records r = []
        · obtain ⟨u, hu⟩ := writeText_of_halves (hfilled.receives hreceives) (hline ['[', '\n'])
          refine ⟨.file (.unwritable u), _, ?_, h.of_filled hb
            ((hfilled.setNode hreceives.not_directory []).congr fun s => ?_)⟩
          · rw [h.write_first htext he hm, hu]
            rfl
          · by_cases hs : s = r
            · simp [heldText, WriteError.isUnwritable, hs, he]
            · simp [heldText, WriteError.isUnwritable, hs]
        · obtain ⟨u, hu⟩ := appendText_of_halves (hfilled.receives hreceives)
            (hfilled.file r (openArray (records r)) (if_neg he)) (hline [',', '\n'])
          refine ⟨.file (.unwritable u), _, ?_, h.of_filled hb
            ((hfilled.setNode hreceives.not_directory (openArray (records r))).congr fun s => ?_)⟩
          · rw [h.write_next htext he, hsame (h.counts_ne_nil he), hu]
            rfl
          · by_cases hs : s = r
            · simp [heldText, hs, he]
            · simp [heldText, WriteError.isUnwritable, hs]
    · have he : records r = [] :=
        Decidable.byContradiction fun hne => hreceives (h.received r hne)
      have hnot : ∀ q, ¬t.Receives (run.path r) q := fun q hq =>
        hreceives ((receives_iff hfilled hplace hr).1 ⟨q, hq⟩)
      obtain ⟨f, hf⟩ := writeText_of_not_receives hnot (['[', '\n'] ++ text)
      refine .inr ⟨.file (.file f), t, ?_, h.of_filled hb hfilled⟩
      rw [h.write_first htext he hm, hf]
      rfl

/-! The end of a run. -/

-- What closes an array is a fixed text, and unfolding would go on to compute its bytes.
attribute [local irreducible] File.Tree.appendText File.Tree.writeText

theorem noHalves_arrayEnd : NoHalves "\n]\n".toList ∧ NoHalves "[]\n".toList := by decide

theorem closeAll_cons (w : Writer) (t : Tree) (r : String) (rest : List String) :
    w.closeAll t (r :: rest) =
      match t.appendText (w.path r) "\n]\n".toList with
      | (.error f, t) => (.error f, t)
      | (.ok (), t) => w.closeAll t rest :=
  rfl

theorem emptyAll_cons (w : Writer) (t : Tree) (r : String) (rest : List String) :
    w.emptyAll t (r :: rest) =
      match t.writeText (w.path r) "[]\n".toList with
      | (.error f, t) => (.error f, t)
      | (.ok (), t) => w.emptyAll t rest :=
  rfl

theorem Filled.closeAll {texts : String → Option Text} (h : Filled base place texts t)
    {names : List String} (hnames : names.Nodup)
    (hr : ∀ r ∈ names, base.Receives (w.path r) (jsonFile place r))
    (ht : ∀ r ∈ names, texts r = some (openArray (records r))) :
    ∃ t', w.closeAll t names = (.ok (), t') ∧ Filled base place
      (fun r => if r ∈ names then some (openArray (records r) ++ "\n]\n".toList) else texts r) t' := by
  induction names generalizing t texts with
  | nil => exact ⟨t, rfl, h.congr fun r => by simp⟩
  | cons r rest ih =>
    have hreceives := hr r List.mem_cons_self
    have happend := appendText_of_receives (h.receives hreceives)
      (h.file r _ (ht r List.mem_cons_self)) noHalves_arrayEnd.1
    obtain ⟨hnot, hrest⟩ := List.nodup_cons.1 hnames
    have hset := h.setNode hreceives.not_directory (openArray (records r) ++ "\n]\n".toList)
    obtain ⟨t', hclose, hfilled⟩ := ih hset hrest
      (fun s hs => hr s (List.mem_cons_of_mem _ hs)) fun s hs => by
        have hne : s ≠ r := by
          rintro rfl
          exact hnot hs
        rw [if_neg hne]
        exact ht s (List.mem_cons_of_mem _ hs)
    refine ⟨t', ?_, hfilled.congr fun s => ?_⟩
    · rw [closeAll_cons, happend]
      exact hclose
    · by_cases hs : s = r
      · simp [hs]
      · simp [hs]

/-- An empty array is written only where a file can be. -/
theorem receives_of_emptyAll {texts : String → Option Text} {names : List String} {t' : Tree}
    (hf : Filled base place texts t) (hplace : base.resolve w.directory = .ok place)
    (hr : ∀ r ∈ names, '/' ∉ r.toList) (h : w.emptyAll t names = (.ok (), t')) :
    ∀ r ∈ names, base.Receives (w.path r) (jsonFile place r) := by
  induction names generalizing t texts with
  | nil => exact fun r hm => absurd hm List.not_mem_nil
  | cons name rest ih =>
    have hname := hr name List.mem_cons_self
    have hreceives : base.Receives (w.path name) (jsonFile place name) := by
      refine Classical.byContradiction fun hnot => ?_
      obtain ⟨f, hfault⟩ := writeText_of_not_receives
        (fun q hq => hnot ((receives_iff hf hplace hname).1 ⟨q, hq⟩)) "[]\n".toList
      rw [emptyAll_cons, hfault] at h
      cases h
    have hwrite := writeText_of_receives (hf.receives hreceives) noHalves_arrayEnd.2
    rw [emptyAll_cons, hwrite] at h
    have hrest := ih (hf.setNode hreceives.not_directory "[]\n".toList)
      (fun r hm => hr r (List.mem_cons_of_mem name hm)) h
    intro r hm
    rcases List.mem_cons.1 hm with rfl | hm
    · exact hreceives
    · exact hrest r hm

theorem Filled.emptyAll {texts : String → Option Text} (h : Filled base place texts t)
    {names : List String} (hr : ∀ r ∈ names, base.Receives (w.path r) (jsonFile place r)) :
    ∃ t', w.emptyAll t names = (.ok (), t') ∧ Filled base place
      (fun r => if r ∈ names then some "[]\n".toList else texts r) t' := by
  induction names generalizing t texts with
  | nil => exact ⟨t, rfl, h.congr fun r => by simp⟩
  | cons r rest ih =>
    have hreceives := hr r List.mem_cons_self
    have hwrite := writeText_of_receives (h.receives hreceives) noHalves_arrayEnd.2
    obtain ⟨t', hempty, hfilled⟩ := ih (h.setNode hreceives.not_directory "[]\n".toList)
      fun s hs => hr s (List.mem_cons_of_mem _ hs)
    refine ⟨t', ?_, hfilled.congr fun s => ?_⟩
    · rw [emptyAll_cons, hwrite]
      exact hempty
    · by_cases hs : s = r
      · simp [hs]
      · simp [hs]

theorem Holds.mem_keys_iff (h : Holds run base place w files records emptied) (r : String) :
    r ∈ Keyed.keys w.counts ↔ records r ≠ [] := by
  rw [Relation.mem_keys_iff, h.counts]
  by_cases hrec : records r = [] <;> simp [hrec]

theorem Holds.closeAll (h : Holds run base place w files records emptied)
    (hb : base.isDirectory run.directory = true) :
    ∃ files' t, w.closeAll files (Keyed.keys w.counts) = (.ok (), files') ∧
      files'.makeDirectories run.directory = .ok t ∧ (w.counts ≠ [] → files' = t) ∧
      Filled base place (fun r => if r ∈ Keyed.keys w.counts
        then some (openArray (records r) ++ "\n]\n".toList) else heldText records emptied r) t := by
  obtain ⟨t, hm, hsame, hfilled⟩ := h.made
  obtain ⟨t', hclose, hclosed⟩ := Filled.closeAll hfilled h.nodup (fun r hmem => by
    rw [path_eq h.directory_eq]
    exact h.received r ((h.mem_keys_iff r).1 hmem)) fun r hmem => if_neg ((h.mem_keys_iff r).1 hmem)
  by_cases hc : w.counts = []
  · rw [hc] at hclose ⊢
    cases hclose
    exact ⟨files, t, rfl, hm, fun hn => absurd rfl hn, by rw [hc] at hclosed; exact hclosed⟩
  · rw [hsame hc]
    exact ⟨t', t', hclose,
      makeDirectories_of_isDirectory (isDirectory_of_keeps hclosed.directories hb),
      fun _ => rfl, hclosed⟩

/-- Once the arrays are closed, what is left is to write the empty ones. -/
theorem Holds.exists_finalize_eq (h : Holds run base place w files records emptied)
    (hb : base.isDirectory run.directory = true) {relations : List String}
    (hne : w.counts = [] → relations ≠ []) :
    ∃ t, Filled base place (fun r => if r ∈ Keyed.keys w.counts
        then some (openArray (records r) ++ "\n]\n".toList) else heldText records emptied r) t ∧
      w.finalize files relations =
        match w.emptyAll t (relations.filter fun r => !Keyed.has r w.counts) with
        | (.error f, t) => (.error (.file f), t)
        | (.ok (), t) => (.ok { w with finalized := true }, t) := by
  obtain ⟨files', t, hclose, hm, hsame, hclosed⟩ := h.closeAll hb
  refine ⟨t, hclosed, ?_⟩
  unfold Writer.finalize
  rw [h.unfinished, hclose]
  simp only [Bool.false_eq_true, if_false]
  split
  · rename_i hnil
    have hcounts : w.counts ≠ [] := by
      intro hc
      obtain ⟨r, hmem⟩ := List.exists_mem_of_ne_nil _ (hne hc)
      have := List.filter_eq_nil_iff.1 hnil r hmem
      simp [hc, Keyed.has] at this
    rw [hsame hcounts, hnil]
    rfl
  · rcases hempty : w.emptyAll t (relations.filter fun r => !Keyed.has r w.counts) with ⟨_ | _, _⟩ <;>
      simp only [h.directory_eq, hm, hempty]

/-- At the end each relation has a file with an array of its records. -/
theorem Holds.finalize (h : Holds run base place w files records emptied)
    (hb : base.isDirectory run.directory = true) {relations : List String} (hne : relations ≠ [])
    (hall : ∀ r, records r ≠ [] → r ∈ relations)
    (hr : ∀ r ∈ relations, base.Receives (run.path r) (jsonFile place r)) :
    ∃ w' files', w.finalize files relations = (.ok w', files') ∧ w'.directory = run.directory ∧
      Filled base place (fun r => if r ∈ relations then some (arrayText (records r))
        else if r ∈ emptied then some [] else none) files' := by
  obtain ⟨t, hclosed, heq⟩ := h.exists_finalize_eq hb fun _ => hne
  have hreceives : ∀ r ∈ relations.filter fun r => !Keyed.has r w.counts,
      base.Receives (w.path r) (jsonFile place r) := by
    intro r hmem
    rw [path_eq h.directory_eq]
    exact hr r (List.mem_filter.1 hmem).1
  obtain ⟨t', hempty, hend⟩ := Filled.emptyAll hclosed hreceives
  refine ⟨{ w with finalized := true }, t', by rw [heq, hempty], h.directory_eq,
    hend.congr fun r => ?_⟩
  have hkey := h.mem_keys_iff
  have hhas : Keyed.has r w.counts = true ↔ records r ≠ [] := (Keyed.has_iff r _).trans (hkey r)
  by_cases hrec : records r = []
  · have : Keyed.has r w.counts = false := by simpa [hrec] using hhas
    simp [hkey, hrec, this, arrayText, heldText]
  · have : Keyed.has r w.counts = true := hhas.2 hrec
    simp [hkey, hrec, this, arrayText, hall r hrec]

/-- A run ends well only if the file of each relation can be written. -/
theorem Holds.receives_of_finalize (h : Holds run base place w files records emptied)
    (hplace : base.resolve run.directory = .ok place) (hb : base.isDirectory run.directory = true)
    {relations : List String} (hr : ∀ r ∈ relations, '/' ∉ r.toList) {w' : Writer} {files' : Tree}
    (hfinal : w.finalize files relations = (.ok w', files')) :
    ∀ r ∈ relations, base.Receives (run.path r) (jsonFile place r) := by
  intro r hmem
  by_cases hrec : records r = []
  · obtain ⟨t, hclosed, heq⟩ := h.exists_finalize_eq hb fun _ => List.ne_nil_of_mem hmem
    have hunwritten : r ∈ relations.filter fun r => !Keyed.has r w.counts := by
      have : Keyed.has r w.counts = false := by
        rw [Bool.eq_false_iff, ne_eq, Keyed.has_iff, h.mem_keys_iff]
        exact not_not_intro hrec
      simp [hmem, this]
    rw [heq] at hfinal
    split at hfinal
    · cases hfinal
    · rename_i t' hempty
      rw [← path_eq h.directory_eq]
      refine receives_of_emptyAll hclosed (by rw [h.directory_eq]; exact hplace) (fun s hs => ?_)
        hempty r hunwritten
      exact hr s (List.mem_filter.1 hs).1
  · exact h.received r hrec

/-- Some of the empty arrays are written, all of them if nothing fails. -/
theorem Filled.emptyAll_cases {texts : String → Option Text} (h : Filled base place texts t)
    (hplace : base.resolve w.directory = .ok place) {names : List String}
    (hr : ∀ r ∈ names, '/' ∉ r.toList) :
    ∃ (emptied : List String) (t' : Tree), (∀ r ∈ emptied, r ∈ names ∧ base.Receives (w.path r) (jsonFile place r)) ∧
      Filled base place (fun r => if r ∈ emptied then some "[]\n".toList else texts r) t' ∧
      (w.emptyAll t names = (.ok (), t') ∧ (∀ r ∈ names, r ∈ emptied) ∨
        ∃ f, w.emptyAll t names = (.error f, t')) := by
  induction names generalizing t texts with
  | nil => exact ⟨[], t, by simp, h.congr fun r => by simp, .inl ⟨rfl, by simp⟩⟩
  | cons name rest ih =>
    have hname := hr name List.mem_cons_self
    by_cases hreceives : base.Receives (w.path name) (jsonFile place name)
    · have hwrite := writeText_of_receives (h.receives hreceives) noHalves_arrayEnd.2
      obtain ⟨emptied, t', hmem, hfilled, hend⟩ :=
        ih (h.setNode hreceives.not_directory "[]\n".toList) fun r hm => hr r (List.mem_cons_of_mem _ hm)
      have heq : w.emptyAll t (name :: rest) =
          w.emptyAll (t.setNode (jsonFile place name) (.ofText "[]\n".toList)) rest := by
        rw [emptyAll_cons, hwrite]
      refine ⟨name :: emptied, t', List.forall_mem_cons.2 ⟨⟨List.mem_cons_self, hreceives⟩, fun r hm =>
        ⟨List.mem_cons_of_mem _ (hmem r hm).1, (hmem r hm).2⟩⟩, hfilled.congr fun r => ?_, ?_⟩
      · by_cases hn : r = name <;> simp [hn]
      · rw [heq]
        refine hend.imp_left fun ⟨hok, hall⟩ => ⟨hok, fun r hm => ?_⟩
        rcases List.mem_cons.1 hm with rfl | hm
        · exact List.mem_cons_self
        · exact List.mem_cons_of_mem _ (hall r hm)
    · obtain ⟨f, hfault⟩ := writeText_of_not_receives
        (fun q hq => hreceives ((receives_iff h hplace hname).1 ⟨q, hq⟩)) "[]\n".toList
      refine ⟨[], t, by simp, h.congr fun r => by simp, .inr ⟨.file f, ?_⟩⟩
      rw [emptyAll_cons, hfault]

/-- However the end of a run goes, the arrays are closed, and the files of some of the relations
without records have an empty one. -/
theorem Holds.finalize_cases (h : Holds run base place w files records emptied)
    (hplace : base.resolve run.directory = .ok place) (hb : base.isDirectory run.directory = true)
    {relations : List String} (hne : w.counts = [] → relations ≠ [])
    (hr : ∀ r ∈ relations, '/' ∉ r.toList) :
    ∃ (closed : List String) (t' : Tree), (∀ r, records r ≠ [] → r ∈ closed) ∧
      (∀ r ∈ closed, base.Receives (run.path r) (jsonFile place r)) ∧
      Filled base place
        (fun r => if r ∈ closed then some (arrayText (records r)) else heldText records emptied r) t' ∧
      (w.finalize files relations = (.ok { w with finalized := true }, t') ∧
          (∀ r ∈ relations, r ∈ closed) ∨
        ∃ e, w.finalize files relations = (.error e, t')) := by
  have hhas (r : String) : Keyed.has r w.counts = true ↔ records r ≠ [] :=
    (Keyed.has_iff r _).trans (h.mem_keys_iff r)
  obtain ⟨t, hclosed, heq⟩ := h.exists_finalize_eq hb hne
  have hnames : ∀ r ∈ relations.filter fun r => !Keyed.has r w.counts, '/' ∉ r.toList :=
    fun r hm => hr r (List.mem_filter.1 hm).1
  obtain ⟨done, t', hdone, hfilled, hend⟩ := Filled.emptyAll_cases (w := w) hclosed
    (by rw [h.directory_eq]; exact hplace) hnames
  have hnew : ∀ r ∈ done, records r = [] := by
    intro r hm
    have hnot := (List.mem_filter.1 (hdone r hm).1).2
    by_contra hrec
    rw [(hhas r).2 hrec] at hnot
    cases hnot
  refine ⟨done ++ Keyed.keys w.counts, t', fun r hrec => ?_, fun r hm => ?_,
    hfilled.congr fun r => ?_, ?_⟩
  · exact List.mem_append_right _ ((h.mem_keys_iff r).2 hrec)
  · rcases List.mem_append.1 hm with hm | hm
    · rw [← path_eq h.directory_eq]
      exact (hdone r hm).2
    · exact h.received r ((h.mem_keys_iff r).1 hm)
  · by_cases hrec : records r = []
    · have hkey : r ∉ Keyed.keys w.counts := fun hk => (h.mem_keys_iff r).1 hk hrec
      simp [hkey, hrec, arrayText, heldText]
    · have hkey := (h.mem_keys_iff r).2 hrec
      have hnot : r ∉ done := fun hm => hrec (hnew r hm)
      simp [hkey, hnot, hrec, arrayText]
  · rw [heq]
    refine hend.imp (fun ⟨hok, hall⟩ => ?_) fun ⟨f, hf⟩ => ?_
    · rw [hok]
      refine ⟨rfl, fun r hm => ?_⟩
      by_cases hrec : records r = []
      · have hnot : Keyed.has r w.counts = false := by
          rw [Bool.eq_false_iff, ne_eq, hhas]
          exact not_not_intro hrec
        exact List.mem_append_left _ (hall r (List.mem_filter.2 ⟨hm, by rw [hnot]; rfl⟩))
      · exact List.mem_append_right _ ((h.mem_keys_iff r).2 hrec)
    · rw [hf]
      exact ⟨_, rfl⟩

/-- What ends a run well changes the writer only. -/
theorem eq_of_finalize {w w' : Writer} {t t' : Tree} {relations : List String}
    (h : w.finalize t relations = (.ok w', t')) : w' = { w with finalized := true } := by
  unfold Writer.finalize at h
  split at h
  · rename_i hfinalized
    cases h
    rw [← hfinalized]
  · split at h
    · cases h
    · split at h
      · cases h
        rfl
      · split at h
        · cases h
        · split at h
          · cases h
          · cases h
            rfl

theorem closeAll_error {w : Writer} {t t' : Tree} {names : List String} {f : ContentsFault}
    (h : w.closeAll t names = (.error f, t')) : ∃ g, f = .file g := by
  induction names generalizing t with
  | nil => cases h
  | cons r rest ih =>
    rw [closeAll_cons] at h
    split at h
    · rename_i g s happend
      cases h
      exact appendText_error noHalves_arrayEnd.1 happend
    · exact ih h

theorem emptyAll_error {w : Writer} {t t' : Tree} {names : List String} {f : ContentsFault}
    (h : w.emptyAll t names = (.error f, t')) : ∃ g, f = .file g := by
  induction names generalizing t with
  | nil => cases h
  | cons r rest ih =>
    rw [emptyAll_cons] at h
    split at h
    · rename_i g s hwrite
      cases h
      exact writeText_error noHalves_arrayEnd.2 hwrite
    · exact ih h

/-- No record is at fault when a run cannot be ended. -/
theorem isOfRecord_of_finalize {w : Writer} {t t' : Tree} {relations : List String} {e : WriteError}
    (h : w.finalize t relations = (.error e, t')) : e.isOfRecord = false := by
  unfold Writer.finalize at h
  split at h
  · cases h
  · split at h
    · rename_i hclose
      cases h
      obtain ⟨g, rfl⟩ := closeAll_error hclose
      rfl
    · split at h
      · cases h
      · split at h
        · cases h
          rfl
        · split at h
          · rename_i hempty
            cases h
            obtain ⟨g, rfl⟩ := emptyAll_error hempty
            rfl
          · cases h

end BackendMigration.Relation
