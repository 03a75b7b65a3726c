import BackendMigration.Json.Reader
import BackendMigration.Proofs.Json.Lexeme
import BackendMigration.Proofs.Json.Printer
import BackendMigration.Proofs.Keyed

/-! What printed JSON is read as. -/
namespace BackendMigration.Json

mutual

/-- What the written form of a value is read as: of two fields with one name the later counts. -/
def settled : Json → Json
  | float x => reread x
  | arr items => arr (settledItems items)
  | obj fields => obj (Keyed.ofPairs (settledFields fields))
  | j => j

def settledItems : List Json → List Json
  | [] => []
  | x :: xs => settled x :: settledItems xs

def settledFields : List (String × Json) → List (String × Json)
  | [] => []
  | (k, x) :: fs => (k, settled x) :: settledFields fs

end

/-- After a text, reading goes on from another progress. -/
def Leads (t : Text) (p p' : Progress) (rest : Text) : Prop :=
  ∀ stop offset, p.run stop (lexemesFrom 0 offset (t ++ rest)) =
    p'.run stop (lexemesFrom 0 (offset + t.length) rest)

variable {s t rest : Text} {token : Token} {p p' p'' : Progress}
  {frames : List Frame} {e : Expect}

theorem Leads.trans {r : Text} (h : Leads s p p' r) (h' : Leads t p' p'' rest)
    (hr : r = t ++ rest := by first | rfl | simp) : Leads (s ++ t) p p'' rest := by
  intro stop offset
  rw [List.append_assoc, ← hr, h, hr, h', List.length_append, Nat.add_assoc]

theorem leads_of_spells (h : Spells t token rest) (hstep : ∀ offset, p.step ⟨token, offset⟩ = .ok p') :
    Leads t p p' rest := by
  intro stop offset
  rw [h, Progress.run, hstep]

theorem leads_blank (h : ∀ c ∈ t, isSpace c = true) (p : Progress) (rest : Text) :
    Leads t p p rest := by
  intro stop offset
  rw [lexemesFrom_blank h]

theorem leads_lineBreak (style : Style) (level : Nat) (p : Progress) (rest : Text) :
    Leads (style.lineBreak level) p p rest := by
  refine leads_blank (fun c hc => ?_) p rest
  unfold Style.lineBreak at hc
  split at hc
  · rcases List.mem_cons.1 hc with rfl | hc
    · rfl
    · rw [List.eq_of_mem_replicate hc]
      rfl
  · exact absurd hc List.not_mem_nil

/-- What stands between two items is a comma and a blank. -/
theorem leads_separator (style : Style) (level : Nat) (rest : Text)
    (hstep : ∀ offset, p.step ⟨.comma, offset⟩ = .ok p') :
    Leads (style.separator level) p p' rest := by
  have hcomma (r : Text) : Leads [','] p p' r := leads_of_spells (spells_comma r) hstep
  unfold Style.separator
  split
  · exact (hcomma _).trans (leads_lineBreak style level p' rest)
  · refine (hcomma ([' '] ++ rest)).trans (leads_blank (fun c hc => ?_) p' rest)
    rw [List.mem_singleton.1 hc]
    rfl

/-- A place where a value may stand. -/
def Expect.IsOfValue (e : Expect) : Prop := e = .value ∨ e = .itemOrClose

theorem step_scalar (he : e.IsOfValue) (v : Json) (offset : Nat) :
    Progress.step ⟨frames, e⟩ ⟨.scalar v, offset⟩ = .ok (complete v frames) := by
  rcases he with rfl | rfl <;> rfl

theorem step_text (he : e.IsOfValue) (s : String) (offset : Nat) :
    Progress.step ⟨frames, e⟩ ⟨.text s.toList, offset⟩ = .ok (complete (str s) frames) := by
  rcases he with rfl | rfl <;> simp [Progress.step, takeValue]

theorem step_openArray (he : e.IsOfValue) (hroom : frames.length < maxDepth) (offset : Nat) :
    Progress.step ⟨frames, e⟩ ⟨.openArray, offset⟩ = .ok ⟨.array [] :: frames, .itemOrClose⟩ := by
  rcases he with rfl | rfl <;> simp [Progress.step, takeValue, openFrame, hroom]

theorem step_openObject (he : e.IsOfValue) (hroom : frames.length < maxDepth) (offset : Nat) :
    Progress.step ⟨frames, e⟩ ⟨.openObject, offset⟩ =
      .ok ⟨.object [] "" :: frames, .keyOrClose⟩ := by
  rcases he with rfl | rfl <;> simp [Progress.step, takeValue, openFrame, hroom]

/-- A key with its colon leads to the place of its value. -/
theorem leads_key {ascii : Bool} {key : String} (hw : ascii = true → Text.NoHalves key.toList)
    (he : e = .keyOrClose ∨ e = .key) (fields : Keyed Json) (before : String) (frames : List Frame)
    (rest : Text) :
    Leads (writtenString ascii key.toList ++ [':', ' ']) ⟨.object fields before :: frames, e⟩
      ⟨.object fields key :: frames, .value⟩ rest := by
  have hkey : ∀ offset, Progress.step ⟨.object fields before :: frames, e⟩
      ⟨.text key.toList, offset⟩ = .ok ⟨.object fields key :: frames, .colon⟩ := by
    rcases he with rfl | rfl <;> simp [Progress.step, takeKey]
  have hcolon : Leads [':'] ⟨.object fields key :: frames, .colon⟩
      ⟨.object fields key :: frames, .value⟩ ([' '] ++ rest) :=
    leads_of_spells (spells_colon _) fun _ => rfl
  refine (leads_of_spells (spells_string hw _) hkey).trans (hcolon.trans ?_)
  refine leads_blank (fun c hc => ?_) _ _
  rw [List.mem_singleton.1 hc]
  rfl

/-- A text that no number goes on with, after a break. -/
theorem endsNumber_lineBreak_append (style : Style) (level : Nat) {t : Text} (h : EndsNumber t) :
    EndsNumber (style.lineBreak level ++ t) := by
  unfold Style.lineBreak
  split
  · intro c hc
    obtain rfl : '\n' = c := by simpa using hc
    decide
  · exact h

theorem endsNumber_separator_append (style : Style) (level : Nat) (t : Text) :
    EndsNumber (style.separator level ++ t) := by
  unfold Style.separator
  intro c hc
  obtain rfl : ',' = c := by
    split at hc <;> simpa using hc
  decide

theorem endsNumber_cons {c : Char} (h : c.isDigit = false ∧ c ≠ '.' ∧ c ≠ 'e' ∧ c ≠ 'E') (t : Text) :
    EndsNumber (c :: t) := by
  intro d hd
  obtain rfl : c = d := by simpa using hd
  exact h

/-- What follows an item in an array or object: the other ones, a break and the end. -/
theorem endsNumber_renderItems (style : Style) (level : Nat) (items : List Json) (rest : Text) :
    EndsNumber (renderItems style (level + 1) items ++ (style.lineBreak level ++ ']' :: rest)) := by
  cases items with
  | nil => exact endsNumber_lineBreak_append style level (endsNumber_cons (by decide) rest)
  | cons x xs =>
    rw [renderItems, List.append_assoc, List.append_assoc]
    exact endsNumber_separator_append style (level + 1) _

theorem endsNumber_renderFields (style : Style) (level : Nat) (fields : List (String × Json))
    (rest : Text) :
    EndsNumber (renderFields style (level + 1) fields ++ (style.lineBreak level ++ '\x7d' :: rest)) := by
  cases fields with
  | nil => exact endsNumber_lineBreak_append style level (endsNumber_cons (by decide) rest)
  | cons f fs =>
    rw [renderFields, List.append_assoc, List.append_assoc]
    exact endsNumber_separator_append style (level + 1) _

mutual

theorem leads_renderAt (style : Style) (j : Json) (level : Nat) (frames : List Frame)
    {e : Expect} {rest : Text} (he : e.IsOfValue) (hw : style.ascii = true → j.IsWhole)
    (hfits : j.excess? (maxDepth - frames.length) = none) (hr : EndsNumber rest) :
    Leads (renderAt style level j) ⟨frames, e⟩ (complete (settled j) frames) rest := by
  match j with
  | null => exact leads_of_spells (spells_null rest) (step_scalar he _)
  | bool true => exact leads_of_spells (spells_bool true rest) (step_scalar he _)
  | bool false => exact leads_of_spells (spells_bool false rest) (step_scalar he _)
  | int n =>
    have hlong : isOverlong n = false := by
      simpa [excess?] using hfits
    exact leads_of_spells (spells_int hlong hr) (step_scalar he _)
  | float x => exact leads_of_spells (spells_float x hr) (step_scalar he _)
  | str s => exact leads_of_spells (spells_string hw rest) (step_text he s)
  | arr [] =>
    have hroom : frames.length < maxDepth := by
      simp only [excess?, excessOfItems?, ite_eq_right_iff, reduceCtorEq, imp_false] at hfits
      omega
    have hclose : Leads [']'] ⟨.array [] :: frames, .itemOrClose⟩ (complete (arr []) frames) rest :=
      leads_of_spells (spells_closeArray rest) fun _ => rfl
    exact (leads_of_spells (spells_openArray _) (step_openArray he hroom)).trans hclose
  | arr (x :: xs) =>
    obtain ⟨hroom, hx, hxs⟩ : frames.length < maxDepth ∧
        x.excess? (maxDepth - (frames.length + 1)) = none ∧
        excessOfItems? (maxDepth - (frames.length + 1)) xs = none := by
      rw [excess?] at hfits
      split at hfits
      · cases hfits
      · rw [excessOfItems?, Option.or_eq_none_iff, Nat.sub_sub] at hfits
        exact ⟨by omega, hfits⟩
    have hopen (r : Text) := leads_of_spells (spells_openArray r) (step_openArray he hroom)
    have hitem := leads_renderAt style x (level + 1) (.array [] :: frames) (.inr rfl)
      (fun h => (hw h).1) hx
      (endsNumber_renderItems style level xs rest)
    have hitems := leads_renderItems style xs level frames rest [settled x] (fun h => (hw h).2) hxs
    have hclose : Leads [']'] ⟨.array ((settledItems xs).reverse ++ [settled x]) :: frames, .commaOrClose⟩
        (complete (settled (arr (x :: xs))) frames) rest :=
      leads_of_spells (spells_closeArray rest) fun _ => by simp [Progress.step, settled, settledItems]
    have hend := (leads_lineBreak style level _ _).trans hclose
    have hbegin := leads_lineBreak style (level + 1) ⟨.array [] :: frames, .itemOrClose⟩
    rw [renderAt, List.append_assoc, List.append_assoc, List.append_assoc]
    exact (hopen _).trans ((hbegin _).trans (hitem.trans (hitems.trans hend)))
  | obj [] =>
    have hroom : frames.length < maxDepth := by
      simp only [excess?, excessOfFields?, ite_eq_right_iff, reduceCtorEq, imp_false] at hfits
      omega
    have hclose : Leads ['\x7d'] ⟨.object [] "" :: frames, .keyOrClose⟩
        (complete (obj []) frames) rest :=
      leads_of_spells (spells_closeObject rest) fun _ => rfl
    exact (leads_of_spells (spells_openObject _) (step_openObject he hroom)).trans hclose
  | obj ((k, x) :: fs) =>
    obtain ⟨hroom, hx, hfs⟩ : frames.length < maxDepth ∧
        x.excess? (maxDepth - (frames.length + 1)) = none ∧
        excessOfFields? (maxDepth - (frames.length + 1)) fs = none := by
      rw [excess?] at hfits
      split at hfits
      · cases hfits
      · rw [excessOfFields?, Option.or_eq_none_iff, Nat.sub_sub] at hfits
        exact ⟨by omega, hfits⟩
    have hopen (r : Text) := leads_of_spells (spells_openObject r) (step_openObject he hroom)
    have hbegin := leads_lineBreak style (level + 1) ⟨.object [] "" :: frames, .keyOrClose⟩
    have hkey (r : Text) : Leads (writtenString style.ascii k.toList ++ [':', ' '])
        ⟨.object [] "" :: frames, .keyOrClose⟩ ⟨.object [] k :: frames, .value⟩ r :=
      leads_key (fun h => (hw h).1) (.inl rfl) [] "" frames r
    have hvalue := leads_renderAt style x (level + 1) (.object [] k :: frames) (.inl rfl)
      (fun h => (hw h).2.1) hx
      (endsNumber_renderFields style level fs rest)
    obtain ⟨last, hfields⟩ :=
      leads_renderFields style fs level frames rest [(k, settled x)] k (fun h => (hw h).2.2) hfs
    have hclose : Leads ['\x7d'] _ (complete (settled (obj ((k, x) :: fs))) frames) rest :=
      leads_of_spells (p := ⟨.object ((settledFields fs).foldl
        (fun es p => Keyed.set p.1 p.2 es) [(k, settled x)]) last :: frames, .commaOrClose⟩)
        (spells_closeObject rest) fun _ => rfl
    have hend := (leads_lineBreak style level _ _).trans hclose
    rw [renderAt, List.append_assoc, List.append_assoc, List.append_assoc, List.append_assoc _ _ (_ ++ _)]
    exact (hopen _).trans ((hbegin _).trans ((hkey _).trans (hvalue.trans (hfields.trans hend))))

theorem leads_renderItems (style : Style) (items : List Json) (level : Nat)
    (frames : List Frame) (rest : Text) (before : List Json) (hw : style.ascii = true → ItemsWhole items)
    (hfits : excessOfItems? (maxDepth - (frames.length + 1)) items = none) :
    Leads (renderItems style (level + 1) items) ⟨.array before :: frames, .commaOrClose⟩
      ⟨.array ((settledItems items).reverse ++ before) :: frames, .commaOrClose⟩
      (style.lineBreak level ++ ']' :: rest) := by
  match items with
  | [] => exact leads_blank (fun c hc => absurd hc List.not_mem_nil) _ _
  | x :: xs =>
    rw [excessOfItems?, Option.or_eq_none_iff] at hfits
    have hitem := leads_renderAt style x (level + 1) (.array before :: frames)
      (.inl rfl) (fun h => (hw h).1) hfits.1 (endsNumber_renderItems style level xs rest)
    have hrest := leads_renderItems style xs level frames rest (settled x :: before)
      (fun h => (hw h).2) hfits.2
    have hcomma (r : Text) : Leads (style.separator (level + 1))
        ⟨.array before :: frames, .commaOrClose⟩ ⟨.array before :: frames, .value⟩ r :=
      leads_separator style (level + 1) r fun _ => rfl
    rw [renderItems, settledItems, List.reverse_cons, List.append_assoc, List.append_assoc]
    exact (hcomma _).trans (hitem.trans hrest)

theorem leads_renderFields (style : Style) (fields : List (String × Json)) (level : Nat)
    (frames : List Frame) (rest : Text) (before : Keyed Json)
    (key : String) (hw : style.ascii = true → FieldsWhole fields)
    (hfits : excessOfFields? (maxDepth - (frames.length + 1)) fields = none) :
    ∃ last, Leads (renderFields style (level + 1) fields)
      ⟨.object before key :: frames, .commaOrClose⟩
      ⟨.object ((settledFields fields).foldl (fun es p => Keyed.set p.1 p.2 es) before) last :: frames,
        .commaOrClose⟩
      (style.lineBreak level ++ '\x7d' :: rest) := by
  match fields with
  | [] => exact ⟨key, leads_blank (fun c hc => absurd hc List.not_mem_nil) _ _⟩
  | (k, x) :: fs =>
    rw [excessOfFields?, Option.or_eq_none_iff] at hfits
    have hcomma (r : Text) : Leads (style.separator (level + 1))
        ⟨.object before key :: frames, .commaOrClose⟩ ⟨.object before key :: frames, .key⟩ r :=
      leads_separator style (level + 1) r fun _ => rfl
    have hkey (r : Text) := leads_key (fun h => (hw h).1) (.inr rfl) before key frames r
    have hvalue := leads_renderAt style x (level + 1) (.object before k :: frames) (.inl rfl)
      (fun h => (hw h).2.1) hfits.1 (endsNumber_renderFields style level fs rest)
    obtain ⟨last, hrest⟩ :=
      leads_renderFields style fs level frames rest (Keyed.set k (settled x) before) k
      (fun h => (hw h).2.2) hfits.2
    refine ⟨last, ?_⟩
    rw [renderFields, settledFields, List.foldl_cons, List.append_assoc,
      List.append_assoc _ _ (renderFields _ _ _)]
    exact (hcomma _).trans ((hkey _).trans (hvalue.trans hrest))

end

/-- A written array is read back. -/
theorem read_render_arr {style : Style} {items : List Json}
    (hw : style.ascii = true → ItemsWhole items) (hfits : (arr items).excess? maxDepth = none) :
    read (render style (arr items)) = .ok (arr (settledItems items)) := by
  have hlead : Leads (render style (arr items)) ⟨[], .value⟩ ⟨[], .nothing (settled (arr items))⟩ [] :=
    leads_renderAt style (arr items) 0 [] (.inl rfl) hw hfits fun c hc => nomatch hc
  have hhead : (render style (arr items)).head? = some '[' := by
    cases items <;> rfl
  have hrun := hlead (render style (arr items)).length 0
  rw [List.append_nil] at hrun
  rw [read, hhead, if_neg (by decide)]
  exact hrun

/-! No line of printed JSON ends in a carriage return. -/

theorem return_not_mem_toDigits (n : Nat) : '\r' ∉ Nat.toDigits 10 n := by
  intro h
  have := (Decimal.isDigits_toDigits n).2 _ h
  revert this
  decide

theorem return_not_mem_parts {t whole fraction exponent : Text}
    (h : Decimal.Parts t whole fraction exponent) : '\r' ∉ t := by
  have hdigits {ds : Text} (hds : Decimal.IsDigits ds) : '\r' ∉ ds := by
    intro hm
    have := hds.2 _ hm
    revert this
    decide
  rw [h.eq, List.mem_append, List.mem_append, not_or, not_or]
  refine ⟨?_, ?_, ?_⟩
  · rcases h.isWhole with rfl | ⟨hds, -⟩
    · decide
    · exact hdigits hds
  · rcases h.isFraction with rfl | ⟨ds, hds, rfl⟩
    · exact List.not_mem_nil
    · simpa using hdigits hds
  · rcases h.isExponent with rfl | ⟨sign, ds, hsign, hds, rfl⟩
    · exact List.not_mem_nil
    · rcases hsign with rfl | rfl <;> simpa using hdigits hds

theorem return_not_mem_renderWith (x : Double) :
    '\r' ∉ Decimal.renderWith Decimal.spelled x := by
  cases x with
  | nan => decide
  | infinite negative => cases negative <;> decide
  | finite negative m e =>
    obtain ⟨_, _, _, h, -⟩ :=
      Decimal.exists_parts_renderMagnitude Decimal.spelled (.finite negative m e)
    have := return_not_mem_parts h
    cases negative <;> simpa [Decimal.renderWith] using this

theorem return_not_mem_toString (n : Int) : '\r' ∉ (toString n).toList := by
  rw [toList_toString_int, List.mem_append, not_or]
  refine ⟨?_, return_not_mem_toDigits _⟩
  split <;> decide

theorem return_not_mem_writtenChar (c : Char) : '\r' ∉ writtenChar false c := by
  unfold writtenChar
  iterate 7
    split
    · decide
  split
  · rename_i h
    have hlt : c.toNat < 0x20 := by simpa using h
    have all : ∀ n < 0x20, '\r' ∉ unitEscape n := by decide
    rw [charEscape, if_pos (by omega)]
    exact all _ hlt
  · rename_i hreturn _ _ _ _
    simpa [eq_comm] using hreturn

theorem return_not_mem_writtenString (s : Text) : '\r' ∉ writtenString false s := by
  simp only [writtenString, List.mem_cons, List.mem_append, List.not_mem_nil, List.mem_flatMap,
    not_or, or_false, not_exists, not_and]
  exact ⟨by decide, fun c _ => return_not_mem_writtenChar c, by decide⟩

theorem return_not_mem_lineBreak (style : Style) (level : Nat) : '\r' ∉ style.lineBreak level := by
  unfold Style.lineBreak
  split
  · simp
  · exact List.not_mem_nil

theorem return_not_mem_separator (style : Style) (level : Nat) : '\r' ∉ style.separator level := by
  unfold Style.separator
  split
  · simpa using return_not_mem_lineBreak style level
  · decide

mutual

theorem return_not_mem_renderAt (indent : Option Nat) (level : Nat) (j : Json) :
    '\r' ∉ renderAt ⟨indent, false⟩ level j := by
  match j with
  | null | bool true | bool false | arr [] | obj [] => simp [renderAt]
  | int n => exact return_not_mem_toString n
  | float x => exact return_not_mem_renderWith x
  | str s => exact return_not_mem_writtenString _
  | arr (x :: xs) =>
    have hx := return_not_mem_renderAt indent (level + 1) x
    have hxs := return_not_mem_renderItems indent (level + 1) xs
    simp [renderAt, return_not_mem_lineBreak, hx, hxs]
  | obj ((k, x) :: fs) =>
    have hx := return_not_mem_renderAt indent (level + 1) x
    have hfs := return_not_mem_renderFields indent (level + 1) fs
    simp [renderAt, return_not_mem_lineBreak, return_not_mem_writtenString, hx, hfs]

theorem return_not_mem_renderItems (indent : Option Nat) (level : Nat) (items : List Json) :
    '\r' ∉ renderItems ⟨indent, false⟩ level items := by
  match items with
  | [] => exact List.not_mem_nil
  | x :: xs =>
    have hx := return_not_mem_renderAt indent level x
    have hxs := return_not_mem_renderItems indent level xs
    simp [renderItems, return_not_mem_separator, hx, hxs]

theorem return_not_mem_renderFields (indent : Option Nat) (level : Nat)
    (fields : List (String × Json)) : '\r' ∉ renderFields ⟨indent, false⟩ level fields := by
  match fields with
  | [] => exact List.not_mem_nil
  | (k, x) :: fs =>
    have hx := return_not_mem_renderAt indent level x
    have hfs := return_not_mem_renderFields indent level fs
    simp [renderFields, return_not_mem_separator, return_not_mem_writtenString, hx, hfs]

end

/-! Values that come back as they are when they are written and read. -/

mutual

/-- A value without floats, of which no object has two fields of one name. -/
def IsPlain : Json → Prop
  | float _ => False
  | arr items => ItemsPlain items
  | obj fields => (Keyed.keys fields).Nodup ∧ FieldsPlain fields
  | _ => True

def ItemsPlain : List Json → Prop
  | [] => True
  | x :: xs => IsPlain x ∧ ItemsPlain xs

def FieldsPlain : List (String × Json) → Prop
  | [] => True
  | (_, x) :: fs => IsPlain x ∧ FieldsPlain fs

end

mutual

theorem settled_of_isPlain : ∀ {j : Json}, j.IsPlain → settled j = j
  | null, _ | bool _, _ | int _, _ | str _, _ => rfl
  | float _, h => h.elim
  | arr items, h => by rw [settled, settledItems_of_plain h]
  | obj fields, h => by rw [settled, settledFields_of_plain h.2, Keyed.ofPairs_of_nodup h.1]

theorem settledItems_of_plain : ∀ {items : List Json}, ItemsPlain items → settledItems items = items
  | [], _ => rfl
  | x :: xs, h => by rw [settledItems, settled_of_isPlain h.1, settledItems_of_plain h.2]

theorem settledFields_of_plain :
    ∀ {fields : List (String × Json)}, FieldsPlain fields → settledFields fields = fields
  | [], _ => rfl
  | (k, x) :: fs, h => by rw [settledFields, settled_of_isPlain h.1, settledFields_of_plain h.2]

end

theorem fieldsPlain_iff {fields : List (String × Json)} :
    FieldsPlain fields ↔ ∀ f ∈ fields, f.2.IsPlain := by
  induction fields with
  | nil => simp [FieldsPlain]
  | cons f fs ih => simp [FieldsPlain, ih]

theorem itemsPlain_iff {items : List Json} : ItemsPlain items ↔ ∀ x ∈ items, x.IsPlain := by
  induction items with
  | nil => simp [ItemsPlain]
  | cons x xs ih => simp [ItemsPlain, ih]

/-- The written form of an object ends with its brace. -/
theorem exists_render_obj (style : Style) (fields : List (String × Json)) :
    ∃ t, render style (obj fields) = t ++ ['\x7d'] := by
  cases fields with
  | nil => exact ⟨['\x7b'], rfl⟩
  | cons f fs =>
    rw [render, renderAt, ← List.cons_append]
    exact ⟨_, rfl⟩

end BackendMigration.Json
