import BackendMigration.Proofs.Json.Reader
import BackendMigration.Proofs.Relation.Writer
import BackendMigration.Proofs.Text.Pieces
import BackendMigration.Relation.Reader

/-! The records of a complete file are read back. -/
namespace BackendMigration.Relation

open Json (Leads Progress settled render leads_blank leads_of_spells)

/-- What the record of a file is read as. -/
def readBack (record : Document.Value) : Json := settled (record.toJson.toOption.getD .null)

variable {indent : Option Nat} {texts : List Text} {js : List Json}

/-- After a record its line ends, with a comma or without. -/
theorem endsNumber_records (ts : List Text) (rest : Text) :
    Json.EndsNumber (ts.flatMap ([',', '\n'] ++ ·) ++ '\n' :: rest) := by
  cases ts with
  | nil => exact Json.endsNumber_cons (by decide) _
  | cons t ts => exact Json.endsNumber_cons (by decide) _

theorem leads_newline (p : Progress) (rest : Text) : Leads ['\n'] p p rest :=
  leads_blank (List.forall_mem_singleton.2 rfl) p rest

theorem leads_records (indent : Option Nat) (before : List Json)
    (hfits : ∀ j ∈ js, j.excess? (Json.maxDepth - 1) = none) (rest : Text) :
    Leads ((js.map (render ⟨indent, false⟩)).flatMap ([',', '\n'] ++ ·)) ⟨[.array before], .commaOrClose⟩
      ⟨[.array ((js.map settled).reverse ++ before)], .commaOrClose⟩ ('\n' :: rest) := by
  induction js generalizing before with
  | nil => exact leads_blank (fun c hc => absurd hc List.not_mem_nil) _ _
  | cons j js ih =>
    have hcomma (r : Text) : Leads [','] ⟨[.array before], .commaOrClose⟩ ⟨[.array before], .value⟩ r :=
      leads_of_spells (Json.spells_comma r) fun _ => rfl
    have hrecord := Json.leads_renderAt ⟨indent, false⟩ j 0 [.array before] (.inl rfl)
      (fun h => nomatch h) (hfits j List.mem_cons_self) (endsNumber_records (js.map (render ⟨indent, false⟩)) rest)
    have hrest := ih (settled j :: before) fun k hk => hfits k (List.mem_cons_of_mem j hk)
    rw [List.map_cons, List.map_cons, List.flatMap_cons, List.reverse_cons, List.append_assoc,
      List.append_assoc]
    exact (hcomma _).trans ((leads_newline _ _).trans (hrecord.trans hrest))

/-- The array without the break at its end. -/
def closedArray (texts : List Text) : Text :=
  if texts = [] then ['[', ']'] else openArray texts ++ ['\n', ']']

theorem arrayText_eq (texts : List Text) : arrayText texts = closedArray texts ++ ['\n'] := by
  unfold arrayText closedArray
  split
  · rfl
  · rw [List.append_assoc]
    rfl

theorem read_closedArray (hfits : ∀ j ∈ js, j.excess? (Json.maxDepth - 1) = none) :
    Json.read (closedArray (js.map (render ⟨indent, false⟩))) = .ok (.arr (js.map settled)) := by
  have hopen (r : Text) : Leads ['['] ⟨[], .value⟩ ⟨[.array []], .itemOrClose⟩ r :=
    leads_of_spells (Json.spells_openArray r) fun _ => rfl
  have hlead : Leads (closedArray (js.map (render ⟨indent, false⟩))) ⟨[], .value⟩
      ⟨[], .nothing (.arr (js.map settled))⟩ [] := by
    cases js with
    | nil => exact (hopen [']']).trans (leads_of_spells (Json.spells_closeArray []) fun _ => rfl)
    | cons j js =>
      have hrecord := Json.leads_renderAt ⟨indent, false⟩ j 0 [.array []] (.inr rfl)
        (fun h => nomatch h) (hfits j List.mem_cons_self) (endsNumber_records (js.map (render ⟨indent, false⟩)) [']'])
      have hrest := leads_records indent [settled j]
        (fun k hk => hfits k (List.mem_cons_of_mem j hk)) [']']
      have hclose : Leads [']'] ⟨[.array ((js.map settled).reverse ++ [settled j])], .commaOrClose⟩
          ⟨[], .nothing (.arr ((j :: js).map settled))⟩ [] :=
        leads_of_spells (Json.spells_closeArray []) fun _ => by simp [Progress.step, Json.complete]
      rw [closedArray, if_neg (by simp), openArray, List.map_cons, Text.join_cons, List.append_assoc,
        List.append_assoc]
      exact (hopen _).trans ((leads_newline _ _).trans (hrecord.trans
        (hrest.trans ((leads_newline _ _).trans hclose))))
  have hhead : (closedArray (js.map (render ⟨indent, false⟩))).head? = some '[' := by
    unfold closedArray
    split <;> rfl
  have hrun := hlead (closedArray (js.map (render ⟨indent, false⟩))).length 0
  rw [List.append_nil] at hrun
  rw [Json.read, hhead, if_neg (by decide)]
  exact hrun

/-! The text as a file has it. -/

theorem closedArray_shape (texts : List Text) :
    ∃ inner, closedArray texts = '[' :: inner ++ [']'] := by
  unfold closedArray
  split
  · exact ⟨[], rfl⟩
  · exact ⟨'\n' :: Text.join ",\n".toList texts ++ ['\n'], by simp [openArray]⟩

theorem strip_arrayText (texts : List Text) : Text.strip (arrayText texts) = closedArray texts := by
  obtain ⟨inner, h⟩ := closedArray_shape texts
  have hstart : Text.trimStart Text.isBlank ('[' :: inner ++ [']'] ++ ['\n']) =
      '[' :: inner ++ [']'] ++ ['\n'] := rfl
  have hend (t : Text) : Text.trimEnd Text.isBlank (t ++ [']'] ++ ['\n']) = t ++ [']'] := by
    have hbreak : Text.isBlank '\n' = true := by decide
    have hbracket : Text.isBlank ']' = false := by decide
    simp [Text.trimEnd, hbreak, hbracket]
  rw [arrayText_eq, h, Text.strip, Text.trim, hstart, hend]

theorem closed_closedArray (texts : List Text) : closed (closedArray texts) = closedArray texts := by
  obtain ⟨inner, h⟩ := closedArray_shape texts
  have hlast : (closedArray texts).getLast? = some ']' := by
    rw [h, List.getLast?_append]
    rfl
  rw [closed, if_neg]
  simp [hlast]

theorem return_not_mem_openArray {texts : List Text} (h : ∀ t ∈ texts, '\r' ∉ t) :
    '\r' ∉ openArray texts := by
  have hstart : '\r' ∉ "[\n".toList ∧ '\r' ∉ ",\n".toList := by decide
  rw [openArray, List.mem_append, not_or]
  apply And.intro hstart.1
  cases texts with
  | nil => exact List.not_mem_nil
  | cons t ts =>
    rw [Text.join_cons]
    simp only [List.mem_append, List.mem_flatMap, hstart.2, false_or, not_or, not_exists, not_and]
    exact ⟨h t List.mem_cons_self, fun s hs => h s (List.mem_cons_of_mem t hs)⟩

theorem return_not_mem_arrayText {texts : List Text} (h : ∀ t ∈ texts, '\r' ∉ t) :
    '\r' ∉ arrayText texts := by
  have hend : '\r' ∉ "[]\n".toList ∧ '\r' ∉ "\n]\n".toList := by decide
  unfold arrayText
  split
  · exact hend.1
  · rw [List.mem_append, not_or]
    exact ⟨return_not_mem_openArray h, hend.2⟩

theorem return_not_mem_of_rendered {t : Text} (h : t ∈ js.map (render ⟨indent, false⟩)) : '\r' ∉ t := by
  obtain ⟨j, -, rfl⟩ := List.mem_map.1 h
  exact Json.return_not_mem_renderAt indent 0 j

/-- A text without returns is read as it was written. -/
theorem readText_of_read {files : File.Tree} {p : File.Path} {text : Text} (hreturn : '\r' ∉ text)
    (hfile : files.read p = .ok (String.ofList text).toUTF8) : files.readText p = .ok text := by
  rw [File.Tree.readText, hfile]
  simp only [File.textOfBytes, Utf8.decode_toUTF8, String.toList_ofList,
    Text.normalizeNewlines_of_not_mem hreturn]

/-- A file that holds an array is read. -/
theorem read_of_array (hfits : ∀ j ∈ js, j.excess? (Json.maxDepth - 1) = none) {files : File.Tree}
    {p : File.Path} (hfile : files.read p =
      .ok (String.ofList (arrayText (js.map (render ⟨indent, false⟩)))).toUTF8) :
    read files p = .ok (js.map settled) := by
  have htext : files.readText p = .ok (arrayText (js.map (render ⟨indent, false⟩))) :=
    readText_of_read (return_not_mem_arrayText fun _ => return_not_mem_of_rendered) hfile
  obtain ⟨inner, hshape⟩ := closedArray_shape (js.map (render ⟨indent, false⟩))
  have hempty : (closedArray (js.map (render ⟨indent, false⟩))).isEmpty = false := by
    rw [hshape]
    rfl
  rw [read, htext]
  simp only [parse, strip_arrayText, closed_closedArray, hempty, read_closedArray hfits,
    Bool.false_eq_true, if_false]

/-- The text of a record, if it has one. -/
def textOf (indent : Option Nat) (record : Document.Value) : Text :=
  (Writer.recordText indent record).toOption.getD []

/-- A file that holds an array of records is read. -/
theorem read_of_records {records : List Document.Value}
    (h : ∀ record ∈ records, Writable indent record) {files : File.Tree} {p : File.Path}
    (hfile : files.read p =
      .ok (String.ofList (arrayText (records.map (textOf indent)))).toUTF8) :
    read files p = .ok (records.map readBack) := by
  have hjson : ∀ record ∈ records, (record.toJson.toOption.getD .null).excess? (Json.maxDepth - 1) =
      none ∧ textOf indent record = render ⟨indent, false⟩ (record.toJson.toOption.getD .null) := by
    intro record hr
    obtain ⟨text, ht, -⟩ := h record hr
    obtain ⟨j, hj, hfits, rfl⟩ := recordText_eq_ok_iff.1 ht
    simpa only [textOf, ht, hj, Except.toOption, Option.getD_some, and_true] using hfits
  have htexts : records.map (textOf indent) =
      (records.map fun r => r.toJson.toOption.getD .null).map (render ⟨indent, false⟩) := by
    rw [List.map_map]
    exact List.map_congr_left fun record hr => (hjson record hr).2
  have hfits : ∀ j ∈ records.map fun r => r.toJson.toOption.getD .null,
      j.excess? (Json.maxDepth - 1) = none := by
    intro j hj
    obtain ⟨record, hr, rfl⟩ := List.mem_map.1 hj
    exact (hjson record hr).1
  rw [htexts] at hfile
  rw [read_of_array hfits hfile, List.map_map]
  rfl

/-! The records of a file whose array is still open are read back, wherever it was cut off between two
of them. -/

/-- An open array is completed after its last character that cannot stand between records. -/
theorem closed_strip {inner ending : Text} {c : Char} (hc : isOpenEnd c = false)
    (hblank : Text.isBlank c = false) (hbracket : c ≠ ']') (hending : ∀ d ∈ ending, isOpenEnd d = true)
    (hopen : (inner ++ [c]).head? = some '[') :
    closed (Text.strip (inner ++ c :: ending)) = inner ++ [c] ++ ['\n', ']'] := by
  have hhead : ∀ t, (inner ++ c :: t).head? = some '[' := by
    intro t
    cases inner with
    | nil => exact hopen
    | cons d inner => exact hopen
  have hstart : Text.trimStart Text.isBlank (inner ++ c :: ending) = inner ++ c :: ending := by
    obtain ⟨r, hr⟩ := List.head?_eq_some_iff.1 (hhead ending)
    rw [hr]
    rfl
  have hkept : ∀ d ∈ Text.trimEnd Text.isBlank ending, isOpenEnd d = true :=
    fun d hd => hending d ((Text.trimEnd_isPrefix _ _).subset hd)
  have hlast : (inner ++ c :: Text.trimEnd Text.isBlank ending).getLast? ≠ some ']' := by
    rw [List.getLast?_append_of_ne_nil _ (List.cons_ne_nil _ _)]
    intro h
    have hmem := List.mem_of_getLast? h
    rcases List.mem_cons.1 hmem with he | hmem
    · exact hbracket he.symm
    · exact absurd (hkept _ hmem) (by decide)
  rw [Text.strip, Text.trim, hstart, Text.trimEnd_append hblank, closed, if_pos ⟨hhead _, hlast⟩,
    Text.trimEnd_append hc, Text.trimEnd_eq_nil hkept]

/-- The array that an open one is completed to reads as the records before the cut. -/
theorem parse_openArray (hfits : ∀ j ∈ js, j.excess? (Json.maxDepth - 1) = none)
    (hobject : ∀ j ∈ js, ∃ fields, j = .obj fields) (path : String) {ending : Text}
    (hending : ∀ d ∈ ending, isOpenEnd d = true) :
    parse path (openArray (js.map (render ⟨indent, false⟩)) ++ ending) = .ok (js.map settled) := by
  have hparse : ∀ {inner ending : Text} {c : Char}, isOpenEnd c = false → Text.isBlank c = false →
      c ≠ ']' → (∀ d ∈ ending, isOpenEnd d = true) → (inner ++ [c]).head? = some '[' →
      Json.read (inner ++ [c] ++ ['\n', ']']) = .ok (.arr (js.map settled)) →
      parse path (inner ++ c :: ending) = .ok (js.map settled) := by
    intro inner ending c hc hblank hbracket hending hopen hread
    have hclosed := closed_strip hc hblank hbracket hending hopen
    have hempty : (Text.strip (inner ++ c :: ending)).isEmpty = false := by
      refine Bool.eq_false_iff.2 fun h => ?_
      rw [List.isEmpty_iff.1 h] at hclosed
      have hlength := congrArg List.length hclosed
      simp [closed] at hlength
    simp only [parse, hempty, hclosed, hread, Bool.false_eq_true, if_false]
  cases js using List.reverseRecOn with
  | nil =>
    have hends : ∀ d ∈ '\n' :: ending, isOpenEnd d = true :=
      List.forall_mem_cons.2 ⟨by decide, hending⟩
    exact @hparse [] ('\n' :: ending) '[' (by decide) (by decide) (by decide) hends rfl (by decide)
  | append_singleton before j =>
    obtain ⟨fields, rfl⟩ := hobject j (by simp)
    obtain ⟨front, hfront⟩ := Json.exists_render_obj ⟨indent, false⟩ fields
    obtain ⟨inner, hinner⟩ : ∃ inner,
        openArray ((before ++ [Json.obj fields]).map (render ⟨indent, false⟩)) =
          inner ++ ['\x7d'] := by
      rw [List.map_append, List.map_singleton, hfront]
      by_cases hbefore : before = []
      · rw [hbefore]
        exact ⟨['[', '\n'] ++ front, rfl⟩
      · rw [openArray_concat (by simpa using hbefore)]
        exact ⟨openArray (before.map (render ⟨indent, false⟩)) ++ ',' :: '\n' :: front, by simp⟩
    have hclosed := @read_closedArray indent _ hfits
    rw [closedArray, if_neg (by simp), hinner] at hclosed
    rw [hinner, List.append_assoc, List.singleton_append]
    refine hparse (by decide) (by decide) (by decide) hending ?_ hclosed
    rw [← hinner]
    rfl

end BackendMigration.Relation
