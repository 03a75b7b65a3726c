import BackendMigration.Proofs.Inventory.Table
import BackendMigration.Proofs.Keyed
import BackendMigration.Proofs.Text.Occurrence
import Mathlib.Data.List.DropRight
import Mathlib.Data.List.Find

/-! A function with an address, listed in a table and on a line of its own. -/
namespace BackendMigration.Inventory

open Pattern
open Text (IsGap)

/-- An address as a whole: nothing in it ends one, and more than the scheme is in it. -/
structure Address where
  text : Text
  unbroken : ∀ c ∈ text, endsAddress c = false
  scheme_isPrefix : scheme <+: text
  goesOn : scheme.length < text.length

/-- The cell of a trigger that is called over the web. -/
def httpsCell : Text := "https".toList

/-- A function in both forms: white space stands between its name and its address, or they are cells of a
row, with the trigger's cell between them. -/
structure Shown where
  name : Name
  address : Address
  gap : Text
  isGap : IsGap gap
  unended : ∀ c ∈ gap, Text.endsLine c = false
  row : Row
  cells_eq : row.cells.map (·.2.text) = [httpsCell, address.text]

def Shown.inTable (f : Shown) : Line := .entry f.name f.row

def Shown.line (f : Shown) : Text := f.name.text ++ (f.gap ++ f.address.text)

def printLines (fs : List Shown) : String := String.ofList (Text.join ['\n'] (fs.map Shown.line))

/-- What a row shows of a function. -/
def Shown.ofRow (f : Shown) : Listed :=
  ⟨String.ofList f.name.text, String.ofList (Text.join [' '] [httpsCell, f.address.text]),
    some (String.ofList f.address.text)⟩

/-- The word characters at the end of a text. -/
def lastWord (t : Text) : Text := t.rtakeWhile Text.isWord

/-- What a line shows of a function: of its name, what stands behind the last dash. -/
def Shown.ofLine? (f : Shown) : Option Listed :=
  let word := lastWord f.name.text
  if word = [] then none
  else some ⟨String.ofList word, "https", some (String.ofList f.address.text)⟩

variable {c : Char} {s t front back : Text} {m : Match}

/-! An address is found where it stands. -/

theorem Address.ne_nil (a : Address) : a.text ≠ [] := by
  intro h
  have := a.goesOn
  rw [h] at this
  exact absurd this (Nat.not_lt_zero _)

theorem Address.isBlank_eq_false (a : Address) (hc : c ∈ a.text) : Text.isBlank c = false :=
  (Bool.or_eq_false_iff.1 (a.unbroken c hc)).1

theorem Address.isBar_eq_false (a : Address) (hc : c ∈ a.text) : isBar c = false :=
  (Bool.or_eq_false_iff.1 (a.unbroken c hc)).2

theorem Address.address?_eq {ends : Char → Bool} (a : Address) (h : ∀ c ∈ a.text, ends c = false) :
    address? ends a.text = some a.text := by
  have hrun : (a.text.takeWhile fun c => !ends c) = a.text :=
    List.takeWhile_eq_self_iff.2 fun c hc => by rw [h c hc]; rfl
  have hat : addressAt? ends a.text = some a.text := by
    rw [addressAt?, hrun, if_pos ⟨a.scheme_isPrefix, a.goesOn⟩]
  obtain ⟨c, r, ha⟩ := List.exists_cons_of_ne_nil a.ne_nil
  rw [ha] at hat ⊢
  rw [address?, hat, Option.some_or]

/-- Where there is an address, there is a colon. -/
theorem colon_mem_of_address? {ends : Char → Bool} {a : Text} (h : address? ends t = some a) : ':' ∈ t := by
  induction t with
  | nil => cases h
  | cons c t ih =>
    rw [address?, Option.or_eq_some_iff] at h
    rcases h with h | ⟨-, h⟩
    · rw [addressAt?] at h
      split at h
      · rename_i hrun
        have hmem : ':' ∈ scheme := by decide
        exact (List.takeWhile_sublist _).subset (hrun.1.subset hmem)
      · cases h
    · exact List.mem_cons_of_mem c (ih h)

theorem Name.address?_eq_none (n : Name) (ends : Char → Bool) : address? ends n.text = none := by
  cases h : address? ends n.text with
  | none => rfl
  | some a => exact absurd (n.listed _ (colon_mem_of_address? h)) (by decide +kernel)

/-- What a row of a table shows. -/
theorem Shown.function?_inTable (f : Shown) : f.inTable.function? = some f.ofRow := by
  have hhttps : address? Text.isBlank httpsCell = none := by decide
  have haddress := f.address.address?_eq fun _ => f.address.isBlank_eq_false
  rw [inTable, Line.function?, f.cells_eq]
  simp only [List.findSome?_cons, Name.address?_eq_none, hhttps, haddress, Option.map_some]
  rfl

/-! What the pattern takes for a name is followed by white space. -/

/-- What is taken for a name is all word characters, and white space follows it. -/
theorem exists_of_matchAt?_named (h : namedUrlPattern.matchAt? (.between front t) = some m) :
    ∃ s c r, m.part? "name" = some s ∧ t = s ++ c :: r ∧ s ≠ [] ∧ (∀ c ∈ s, Text.isWord c = true) ∧
      Text.isBlank c = true := by
  have h : namedUrlPattern.matchThen _ (.between front t) [] = some m := h
  obtain ⟨s, r, hs, rfl, h⟩ := exists_of_matchThen_part_cons (p := word) rfl h
  obtain ⟨b, r, hb, rfl, h⟩ := exists_of_matchThen_cons (p := someBlanks) rfl h
  obtain ⟨_, -, hm⟩ := takes_of_matchThen_of_parts rfl h
  obtain ⟨hne, hs⟩ := spells_repeated_one.1 hs
  obtain ⟨hb, hbne⟩ := spells_someBlanks.1 hb
  obtain ⟨c, b, rfl⟩ := List.exists_cons_of_ne_nil hbne
  obtain rfl := Option.some.inj hm
  exact ⟨s, c, b ++ r, rfl, rfl, hne, hs, (Bool.and_eq_true_iff.1 hb).1⟩

/-- On a line only the end of the name stands before white space. -/
theorem Shown.append_eq_name (f : Shown) {r : Text} (hline : f.line = front ++ s ++ c :: r) (hne : s ≠ [])
    (hs : ∀ c ∈ s, Text.isWord c = true) (hc : Text.isBlank c = true) : front ++ s = f.name.text := by
  have hend : ∀ d ∈ (front ++ s).getLast?, Text.isBlank d = false := by
    intro d hd
    rw [List.getLast?_append_of_ne_nil _ hne] at hd
    by_contra hblank
    have hword := hs d (List.mem_of_getLast? hd)
    rw [Source.isWord_eq_false_of_isBlank (by simpa using hblank)] at hword
    cases hword
  rcases List.append_eq_append_iff.1 hline.symm with ⟨x, hname, hrest⟩ | ⟨x, hfront, hrest⟩
  · cases x with
    | nil => rw [hname, List.append_nil]
    | cons d x =>
      obtain ⟨rfl, -⟩ := List.cons.inj hrest
      have hmem : c ∈ f.name.text := by
        rw [hname]
        simp
      rw [isBlank_of_isListedChar (f.name.listed c hmem)] at hc
      cases hc
  · rcases List.append_eq_append_iff.1 hrest with ⟨y, hx, hrest⟩ | ⟨y, hgap, hrest⟩
    · -- the white space would be in the address
      have hmem : c ∈ f.address.text := by
        rw [hrest]
        simp
      rw [f.address.isBlank_eq_false hmem] at hc
      cases hc
    · -- what is taken would end in white space
      cases hlast : x.getLast? with
      | none =>
        rw [hfront, List.getLast?_eq_none_iff.1 hlast, List.append_nil]
      | some d =>
        have hmem : d ∈ f.gap := by
          rw [hgap]
          exact List.mem_append_left _ (List.mem_of_getLast? hlast)
        have hblank := List.all_eq_true.1 f.isGap.2 d hmem
        rw [hend d] at hblank
        · cases hblank
        · rw [hfront, List.getLast?_append, hlast]
          rfl

/-- Word characters in front of the white space of a line are taken for a name. -/
theorem Shown.exists_takes (f : Shown) (hne : s ≠ []) (hs : ∀ c ∈ s, Text.isWord c = true)
    (front : Text) :
    ∃ c', namedUrlPattern.Takes (.between front (s ++ (f.gap ++ f.address.text))) c' := by
  obtain ⟨rest, haddress⟩ := f.address.scheme_isPrefix
  have hspells : namedUrlPattern.Spells (s ++ (f.gap ++ scheme)) :=
    ⟨s, _, spells_repeated_one.2 ⟨hne, hs⟩, ⟨f.gap, _, spells_someBlanks.2 ⟨f.isGap.2, f.isGap.1⟩,
      ⟨[], scheme, spells_many_one.2 (List.forall_mem_nil _), ⟨scheme, [], spells_text.2 rfl, rfl, rfl⟩, rfl⟩,
      rfl⟩, rfl⟩
  have htakes := takes_of_spells (by decide) hspells front rest
  rw [List.append_assoc, List.append_assoc, haddress] at htakes
  exact ⟨_, htakes⟩

theorem isWord_of_mem_lastWord (h : c ∈ lastWord t) : Text.isWord c = true := List.mem_rtakeWhile_imp h

theorem rdropWhile_append_lastWord (t : Text) : t.rdropWhile Text.isWord ++ lastWord t = t :=
  List.rdropWhile_append_rtakeWhile

theorem lastWord_append (hs : ∀ c ∈ s, Text.isWord c = true) (t : Text) :
    lastWord (t ++ s) = lastWord t ++ s := by
  rw [lastWord, List.rtakeWhile, List.reverse_append,
    List.takeWhile_append_of_pos fun c hc => hs c (List.mem_reverse.1 hc), List.reverse_append,
    List.reverse_reverse]
  rfl

/-- The search stops at the first place from which word characters reach to the white space. -/
theorem Shown.part?_search? (f : Shown) :
    (namedUrlPattern.search? (.start f.line)).bind (·.part? "name") =
      if lastWord f.name.text = [] then none else some (lastWord f.name.text) := by
  rw [Cursor.start_eq]
  cases hsearch : namedUrlPattern.search? (.between [] f.line) with
  | none =>
    by_cases hword : lastWord f.name.text = []
    · rw [if_pos hword]
      rfl
    · obtain ⟨c', htakes⟩ := f.exists_takes hword (fun c => isWord_of_mem_lastWord)
        (f.name.text.rdropWhile Text.isWord)
      have hoccurs : namedUrlPattern.occursIn f.line = true := by
        refine occursIn_iff.2 ⟨_, _, c', ?_, htakes⟩
        rw [← List.append_assoc, rdropWhile_append_lastWord, line]
      rw [occursIn, Cursor.start_eq, hsearch] at hoccurs
      cases hoccurs
  | some m =>
    obtain ⟨front, back, hline, hm, hskips⟩ := search?_between_eq_some_iff.1 hsearch
    obtain ⟨s, c, r, hpart, rfl, hne, hs, hc⟩ := exists_of_matchAt?_named hm
    rw [← List.append_assoc] at hline
    have hname := f.append_eq_name hline hne hs hc
    have hrest : c :: r = f.gap ++ f.address.text := by
      rw [line, ← hname] at hline
      exact (List.append_cancel_left hline).symm
    have hfirst : lastWord front = [] := by
      by_contra hword
      have hnone := hskips _ _ (rdropWhile_append_lastWord front).symm hword
      obtain ⟨c', htakes⟩ := f.exists_takes (s := lastWord front ++ s) (by simp [hne])
        (List.forall_mem_append.2 ⟨fun c => isWord_of_mem_lastWord, hs⟩)
        ([] ++ front.rdropWhile Text.isWord)
      have hsome := isSome_matchAt?_iff.2 ⟨c', htakes⟩
      rw [List.append_assoc, ← hrest, hnone] at hsome
      cases hsome
    rw [← hname, lastWord_append hs, hfirst, List.nil_append, if_neg hne, Option.bind_some, hpart]

/-! What is read off a line. -/

theorem Shown.strip_line (f : Shown) : Text.strip f.line = f.line := by
  have hname : Text.IsSolid f.name.text :=
    ⟨f.name.ne_nil, fun c hc => isBlank_of_isListedChar (f.name.listed c hc)⟩
  have haddress : Text.IsSolid f.address.text := ⟨f.address.ne_nil, fun _ => f.address.isBlank_eq_false⟩
  refine (Text.Spaced.cons f.name.text f.isGap (.last f.address.text)).strip_eq ?_
  intro w hw
  rcases List.mem_cons.1 hw with rfl | hw
  · exact hname
  · rwa [List.mem_singleton.1 hw]

theorem Shown.isBlank_of_mem_gap (f : Shown) (h : c ∈ f.gap) : Text.isBlank c = true :=
  List.all_eq_true.1 f.isGap.2 c h

theorem Shown.any_isBar_line (f : Shown) : f.line.any isBar = false := by
  have hplain : ∀ c ∈ f.line, isBar c = false := by
    intro c hc
    rcases List.mem_append.1 hc with hc | hc
    · exact isBar_of_isListedChar (f.name.listed c hc)
    · rcases List.mem_append.1 hc with hc | hc
      · by_contra hbar
        have hblank := isBlank_of_isBar (by simpa using hbar)
        rw [f.isBlank_of_mem_gap hc] at hblank
        cases hblank
      · exact f.address.isBar_eq_false hc
  exact List.any_eq_false.2 fun c hc => by simp [hplain c hc]

theorem Shown.address?_line (f : Shown) : address? endsAddress f.line = some f.address.text := by
  obtain ⟨c, gap, hgap⟩ := List.exists_cons_of_ne_nil f.isGap.1
  have hends : ∀ d ∈ c :: gap, endsAddress d = true := by
    intro d hd
    rw [endsAddress, f.isBlank_of_mem_gap (by rwa [hgap]), Bool.true_or]
  rw [line, hgap, List.cons_append, address?_append_cons (hends c List.mem_cons_self),
    f.name.address?_eq_none, Option.none_or,
    address?_append_left (fun d hd => hends d (List.mem_cons_of_mem c hd)),
    f.address.address?_eq f.address.unbroken]

/-- On a line, only what stands behind the last dash of a name is read. -/
theorem Shown.listed?_line (f : Shown) : listed? (Text.strip f.line) = f.ofLine? := by
  rw [f.strip_line, listed?, f.any_isBar_line, map_search?_urlPattern, f.address?_line]
  simp only [Option.map_some, Bool.false_eq_true, if_false, listedOnLine?, f.part?_search?, ofLine?]
  split
  · rfl
  · rfl

theorem Shown.endsLine_of_mem_line (f : Shown) : ∀ c ∈ f.line, Text.endsLine c = false := by
  intro c hc
  rcases List.mem_append.1 hc with hc | hc
  · exact endsLine_of_isBlank (isBlank_of_isListedChar (f.name.listed c hc))
  · rcases List.mem_append.1 hc with hc | hc
    · exact f.unended c hc
    · exact endsLine_of_isBlank (f.address.isBlank_eq_false hc)

/-! Whole listings. -/

theorem readListing_join {ts : List Text} (h : ∀ t ∈ ts, ∀ c ∈ t, Text.endsLine c = false) :
    readListing (String.ofList (Text.join ['\n'] ts)) =
      distinctNames [] (ts.filterMap fun t => listed? (Text.strip t)) := by
  rw [readListing, String.toList_ofList, Text.filterMap_wideLines_join (by decide) h]

theorem readListing_table_eq (table : List Line) :
    readListing (printTable table) = distinctNames [] (table.filterMap Line.function?) := by
  have hlines : ∀ t ∈ table.map Line.print, ∀ c ∈ t, Text.endsLine c = false := by
    intro t ht
    obtain ⟨line, -, rfl⟩ := List.mem_map.1 ht
    exact endsLine_of_mem_print line
  rw [printTable, readListing_join hlines, List.filterMap_map]
  congr 2
  exact funext listed?_strip_print

theorem readListing_rows (fs : List Shown) :
    readListing (printTable (fs.map Shown.inTable)) = distinctNames [] (fs.map Shown.ofRow) := by
  rw [readListing_table_eq, List.filterMap_map]
  congr 1
  rw [← List.filterMap_eq_map]
  exact List.filterMap_congr fun f _ => f.function?_inTable

theorem readListing_lines (fs : List Shown) :
    readListing (printLines fs) = distinctNames [] (fs.filterMap Shown.ofLine?) := by
  have hlines : ∀ t ∈ fs.map Shown.line, ∀ c ∈ t, Text.endsLine c = false := by
    intro t ht
    obtain ⟨f, -, rfl⟩ := List.mem_map.1 ht
    exact f.endsLine_of_mem_line
  rw [printLines, readListing_join hlines, List.filterMap_map]
  congr 2
  exact funext Shown.listed?_line

/-- A name without a dash is read as a whole. -/
theorem Name.lastWord_eq (n : Name) (h : '-' ∉ n.text) : lastWord n.text = n.text := by
  refine List.rtakeWhile_eq_self_iff.2 fun c hc => ?_
  rcases Bool.or_eq_true_iff.1 (n.listed c hc) with hword | hdash
  · exact hword
  · exact absurd (beq_iff_eq.1 hdash ▸ hc) h

theorem name_of_ofLine? {f : Shown} {l : Listed} (h : f.ofLine? = some l) :
    l.name = String.ofList (lastWord f.name.text) := by
  rw [Shown.ofLine?] at h
  split at h
  · cases h
  · cases h
    rfl

theorem dash_not_mem_lastWord (t : Text) : '-' ∉ lastWord t := by
  intro h
  exact absurd (isWord_of_mem_lastWord h) (by decide)

theorem mem_names_distinctNames {fs : List Listed} {name : String} :
    name ∈ (distinctNames [] fs).map Listed.name ↔ name ∈ fs.map Listed.name := by
  have h : name ∈ ((Export.firstsBy Listed.name [] fs).map Listed.name).reverse ++ [] ↔ _ :=
    Export.mem_keys_firstsBy
  rw [distinctNames_eq_firstsBy]
  simpa using h

/-- Which functions are read by their names depends on the names alone. -/
theorem map_distinctNames {α : Type} {key : Listed → α} {a b : Shown → Listed} {fs : List Shown}
    (hname : ∀ f ∈ fs, (a f).name = (b f).name) (hkey : ∀ f ∈ fs, key (a f) = key (b f))
    (seen : List String) :
    (distinctNames seen (fs.map a)).map key = (distinctNames seen (fs.map b)).map key := by
  induction fs generalizing seen with
  | nil => rfl
  | cons f fs ih =>
    have ih := ih (fun g hg => hname g (List.mem_cons_of_mem f hg))
      (fun g hg => hkey g (List.mem_cons_of_mem f hg))
    rw [List.map_cons, List.map_cons, distinctNames, distinctNames, hname f List.mem_cons_self]
    split
    · exact ih seen
    · rw [List.map_cons, List.map_cons, hkey f List.mem_cons_self, ih]

/-- A table of functions with addresses is read as their names and addresses. Lines of their own are read as
the same ones without what stands in front of the last dash of a name, and without the functions whose
names end in a dash: both readings agree exactly if no name has a dash. -/
theorem readListing_printLines (fs : List Shown) :
    readListing (printTable (fs.map Shown.inTable)) =
        (fs.map Shown.ofRow).eraseDupsBy (fun f g => f.name == g.name) ∧
      readListing (printLines fs) =
        (fs.filterMap Shown.ofLine?).eraseDupsBy (fun f g => f.name == g.name) ∧
      ((readListing (printLines fs)).map (fun f => (f.name, f.url)) =
          (readListing (printTable (fs.map Shown.inTable))).map (fun f => (f.name, f.url)) ↔
        ∀ f ∈ fs, '-' ∉ f.name.text) := by
  rw [readListing_rows, readListing_lines, distinctNames_eq_firstsBy, distinctNames_eq_firstsBy,
    Export.eraseDupsBy_eq_firstsBy, Export.eraseDupsBy_eq_firstsBy]
  refine ⟨rfl, rfl, ?_⟩
  rw [← distinctNames_eq_firstsBy, ← distinctNames_eq_firstsBy]
  constructor
  · intro hagree f hf hdash
    have hnames : (distinctNames [] (fs.filterMap Shown.ofLine?)).map Listed.name =
        (distinctNames [] (fs.map Shown.ofRow)).map Listed.name := by
      have hfirst := congrArg (List.map Prod.fst) hagree
      rwa [List.map_map, List.map_map] at hfirst
    have hrow : String.ofList f.name.text ∈
        (distinctNames [] (fs.map Shown.ofRow)).map Listed.name := by
      rw [mem_names_distinctNames, List.map_map]
      exact List.mem_map_of_mem hf
    rw [← hnames] at hrow
    obtain ⟨l, hl, hname⟩ := List.mem_map.1 (mem_names_distinctNames.1 hrow)
    obtain ⟨g, -, hg⟩ := List.mem_filterMap.1 hl
    rw [name_of_ofLine? hg] at hname
    rw [← String.ofList_injective hname] at hdash
    exact dash_not_mem_lastWord _ hdash
  · intro hdash
    have hlines : fs.filterMap Shown.ofLine? =
        fs.map fun f => ⟨String.ofList f.name.text, "https", some (String.ofList f.address.text)⟩ := by
      rw [← List.filterMap_eq_map]
      refine List.filterMap_congr fun f hf => ?_
      rw [Shown.ofLine?, f.name.lastWord_eq (hdash f hf), if_neg f.name.ne_nil]
      rfl
    rw [hlines]
    refine map_distinctNames (fun f _ => ?_) (fun f _ => ?_) []
    · rfl
    · rfl

/-! A name with a dash in it. -/

namespace Sample

def demo : Address where
  text := "https://demo/on-user".toList
  unbroken := by
    have hall : "https://demo/on-user".toList.all (fun c => !endsAddress c) = true := by decide
    simpa using hall
  scheme_isPrefix := by decide
  goesOn := by decide

def demoCell : Cell := ⟨demo.text, ⟨by decide, by decide, by decide⟩, plain_of_all (by decide)⟩

theorem isBar_box : isBar '│' = true := by
  decide

theorem edges_box : ∀ c ∈ "│ ".toList ++ " │".toList, isBar c = true ∨ c = ' ' :=
  edges_of_all (by decide)

/-- A row of the usual trigger and some more cells. -/
def httpsRow (cells : List Cell) : Row where
  opening := "│ ".toList
  cells := (https :: cells).map fun cell => (⟨1, '│', 1, isBar_box⟩, cell)
  closing := " │".toList
  edges := edges_box
  hasBar := .inl (List.cons_ne_nil _ _)

/-- A function called by a name with a dash, in both forms. -/
def onUserShown : Shown where
  name := onUser
  address := demo
  gap := [' ', ' ']
  isGap := ⟨List.cons_ne_nil _ _, by decide⟩
  unended := by
    have hall : [' ', ' '].all (fun c => !Text.endsLine c) = true := by decide
    simpa using hall
  row := httpsRow [demoCell]
  cells_eq := rfl

theorem user_of_onUser :
    printLines [onUserShown] = "on-user  https://demo/on-user" ∧
      readListing "on-user  https://demo/on-user" = [⟨"user", "https", some "https://demo/on-user"⟩] ∧
      printTable [onUserShown.inTable] = "│ on-user │ https │ https://demo/on-user │" ∧
      readListing "│ on-user │ https │ https://demo/on-user │" =
        [⟨"on-user", "https https://demo/on-user", some "https://demo/on-user"⟩] := by
  have hline : printLines [onUserShown] = "on-user  https://demo/on-user" := by decide
  have htable : printTable [onUserShown.inTable] = "│ on-user │ https │ https://demo/on-user │" := by decide
  refine ⟨hline, ?_, htable, ?_⟩
  · rw [← hline, readListing_lines]
    decide
  · rw [← htable]
    exact (readListing_rows [onUserShown]).trans (by decide)

end Sample

end BackendMigration.Inventory

/-! The kind of a listed function whose source is not to be had: all cells behind its name tell it, the
address included. -/
namespace BackendMigration.Inventory

open Document (Value)

/-- A word is in one of some cells, in capitals or small letters. -/
def mentionedIn (cells : List Text) (word : String) : Bool :=
  cells.any fun cell => Text.occursIn word.toList (Text.lowerLatin cell)

/-- The kind of a trigger, for what is mentioned. -/
def kindBy (mentions : String → Bool) : TriggerKind :=
  match triggerWords.find? fun w => mentions w.1 with
  | some (_, kind) => refineKind kind mentions
  | none => .http

/-- The words of other kinds than the usual one. -/
def tellingWords : List String := (triggerWords.filter (·.2 != .http)).map (·.1)

/-- All words on which a kind depends. -/
def kindWords : List String := triggerWords.map (·.1) ++ ["create", "delete"]

/-- The kind of the record of a name, of those found in a project. -/
def foundKind? (registry : Registry) (client : Client) (project : Value) (period : Time.Period)
    (name : String) : Option TriggerKind :=
  Keyed.get? name ((extractProject registry client project period).1.records.map fun r => (r.name, r.kind))

/-- A project lists a function with some cells behind its name, and does not give its source. -/
structure Unsourced (registry : Registry) (client : Client) (project : Value) (name : Name)
    (cells : List Text) : Prop where
  listed : ∃ table row, (client.reply (listArguments project)).text? = some (printTable table) ∧
    ((table.filterMap Line.function?).map Listed.name).Nodup ∧ Line.entry name row ∈ table ∧
    row.cells.map (·.2.text) = cells
  noSource : ¬ HasSource registry client project (String.ofList name.text)

variable {registry : Registry} {client : Client} {project : Value} {name : Name} {cells : List Text}
  {mentions mentions' : String → Bool} {output : String} {f : Listed}

/-! Kinds by words. -/

theorem kindBy_congr (h : ∀ w ∈ kindWords, mentions w = mentions' w) :
    kindBy mentions = kindBy mentions' := by
  have hfind : triggerWords.find? (fun w => mentions w.1) = triggerWords.find? fun w => mentions' w.1 :=
    List.find?_congr fun w hw => h w.1 (List.mem_append_left _ (List.mem_map_of_mem hw))
  have hrefine (kind : TriggerKind) : refineKind kind mentions = refineKind kind mentions' := by
    rw [refineKind, refineKind, h "create" (by decide), h "delete" (by decide)]
  rw [kindBy, kindBy, hfind]
  split
  · exact hrefine _
  · rfl

theorem lowerLatin_join (separator : Text) (pieces : List Text) :
    Text.lowerLatin (Text.join separator pieces) =
      Text.join (Text.lowerLatin separator) (pieces.map Text.lowerLatin) := by
  induction pieces with
  | nil => rfl
  | cons t rest ih =>
    cases rest with
    | nil => rfl
    | cons s rest =>
      have hjoin (separator t s : Text) (rest : List Text) : Text.join separator (t :: s :: rest) =
          t ++ separator ++ Text.join separator (s :: rest) := rfl
      rw [hjoin, Text.lowerLatin, List.flatMap_append, List.flatMap_append, ← Text.lowerLatin,
        ← Text.lowerLatin, ← Text.lowerLatin, ih]
      rfl

theorem classifyTrigger_eq (description : String) : classifyTrigger description =
    kindBy fun w => Text.occursIn w.toList (Text.lowerLatin description.toList) := rfl

/-- No word goes from one cell into the next: there is a space between them. -/
theorem classifyTrigger_join (cells : List Text) :
    classifyTrigger (String.ofList (Text.join [' '] cells)) = kindBy (mentionedIn cells) := by
  have hspace : Text.lowerLatin [' '] = [' '] := by decide
  rw [classifyTrigger_eq, String.toList_ofList, lowerLatin_join, hspace]
  refine kindBy_congr fun w hw => ?_
  obtain ⟨hne, hspace⟩ : w.toList ≠ [] ∧ ' ' ∉ w.toList := by
    revert w hw
    decide
  rw [Text.occursIn_join hne hspace, List.any_map]
  rfl

theorem refineKind_eq_http_iff {kind : TriggerKind} : refineKind kind mentions = .http ↔ kind = .http := by
  rw [refineKind]
  cases kind <;> cases mentions "create" <;> cases mentions "delete" <;> decide

/-- The usual kind is that of what mentions no word of another one. -/
theorem kindBy_eq_http_iff : kindBy mentions = .http ↔ ∀ w ∈ tellingWords, mentions w = false := by
  have hsplit : triggerWords = triggerWords.filter (·.2 != .http) ++ triggerWords.filter (·.2 == .http) := by
    decide
  have htelling : (∀ w ∈ tellingWords, mentions w = false) ↔
      (triggerWords.filter (·.2 != .http)).find? (fun w => mentions w.1) = none := by
    simp [tellingWords]
  rw [kindBy, hsplit, List.find?_append, htelling]
  cases hfind : (triggerWords.filter (·.2 != .http)).find? fun w => mentions w.1 with
  | some p =>
    have hp := (List.mem_filter.1 (List.mem_of_find?_eq_some hfind)).2
    rw [Option.some_or]
    dsimp only
    rw [refineKind_eq_http_iff]
    simpa using hp
  | none =>
    rw [Option.none_or]
    refine iff_of_true ?_ rfl
    split
    · rename_i w kind husual
      have hp := (List.mem_filter.1 (List.mem_of_find?_eq_some husual)).2
      exact refineKind_eq_http_iff.2 (beq_iff_eq.1 hp)
    · rfl

/-! Records by names. -/

/-- The kind of a listed function without source is that of what the list says of its trigger. -/
theorem foundKind?_eq (period : Time.Period)
    (hreply : (client.reply (listArguments project)).text? = some output) (hf : f ∈ readListing output)
    (hsource : ¬ HasSource registry client project f.name) :
    foundKind? registry client project period f.name = some (classifyTrigger f.trigger) := by
  have hfetched : fetchedRecord? registry client project f.name = none := by
    rw [← isSome_fetchedRecord?_iff] at hsource
    simpa using hsource
  have hrecords : (extractProject registry client project period).1.records =
      (readListing output).map fun f => (listedRecord registry client project f).1 := by
    rw [extractProject, hreply]
    exact List.map_map
  have hnodup : (Keyed.keys ((extractProject registry client project period).1.records.map
      fun r => (r.name, r.kind))).Nodup := by
    have hnames : Keyed.keys ((extractProject registry client project period).1.records.map
        fun r => (r.name, r.kind)) = (readListing output).map Listed.name := by
      rw [hrecords, Keyed.keys, List.map_map, List.map_map]
      exact List.map_congr_left fun g _ => name_listedRecord registry client project g
    rw [hnames]
    exact nodup_readListing output
  have hmem : (f.name, classifyTrigger f.trigger) ∈
      (extractProject registry client project period).1.records.map fun r => (r.name, r.kind) := by
    rw [hrecords, List.map_map]
    refine List.mem_map.2 ⟨f, hf, ?_⟩
    rw [Function.comp_apply, listedRecord, hfetched]
    rfl
  exact Keyed.get?_of_mem hnodup hmem

theorem Unsourced.foundKind?_eq (h : Unsourced registry client project name cells) (period : Time.Period) :
    foundKind? registry client project period (String.ofList name.text) =
      some (kindBy (mentionedIn cells)) := by
  obtain ⟨⟨table, row, hreply, hnodup, hentry, rfl⟩, hsource⟩ := h
  have hread : readListing (printTable table) = table.filterMap Line.function? := by
    rw [readListing_table_eq]
    exact distinctNames_eq_self hnodup fun _ _ => List.not_mem_nil
  have hfunction : (⟨String.ofList name.text, String.ofList (Text.join [' '] (row.cells.map (·.2.text))),
      ((name.text :: row.cells.map (·.2.text)).findSome? (address? Text.isBlank)).map String.ofList⟩ :
        Listed) ∈ readListing (printTable table) := by
    rw [hread]
    exact List.mem_filterMap.2 ⟨_, hentry, rfl⟩
  rw [← classifyTrigger_join]
  exact foundKind?_eq period hreply hfunction hsource

/-- On lines of their own, functions are of the usual kind, whatever their addresses are. -/
theorem foundKind?_line {fs : List Shown} (period : Time.Period)
    (hreply : (client.reply (listArguments project)).text? = some (printLines fs))
    (hf : f ∈ readListing (printLines fs)) (hsource : ¬ HasSource registry client project f.name) :
    foundKind? registry client project period f.name = some .http := by
  have htrigger : f.trigger = "https" := by
    rw [readListing_lines] at hf
    obtain ⟨g, -, hg⟩ := List.mem_filterMap.1 (mem_distinctNames hf).1
    rw [Shown.ofLine?] at hg
    split at hg
    · cases hg
    · cases hg
      rfl
  have hkind : classifyTrigger "https" = .http := by decide
  rw [foundKind?_eq period hreply hf hsource, htrigger, hkind]

theorem mentionedIn_append_cons (before after : List Text) (cell : Text) (word : String) :
    mentionedIn (before ++ cell :: after) word =
      (mentionedIn (before ++ after) word || mentionedIn [cell] word) := by
  simp only [mentionedIn, List.any_append, List.any_cons, List.any_nil, Bool.or_false]
  rw [Bool.or_left_comm, Bool.or_comm]

/-- The kind of a function whose source is not to be had is told by the words in all cells of its row, those
of its address among them. Addresses with the same words give the same kind; an address that adds no word
to those of the other cells gives the kind of the row without it; and where the other cells tell no
other kind than the usual one, it does so only if none of their words is in it. -/
theorem foundKind?_address (period : Time.Period) {address : Text} {before after : List Text}
    (h : Unsourced registry client project name (before ++ address :: after)) :
    let kind (client : Client) := foundKind? registry client project period (String.ofList name.text)
    kind client = some (kindBy fun w => mentionedIn (before ++ after) w || mentionedIn [address] w) ∧
      (∀ client' address', Unsourced registry client' project name (before ++ address' :: after) →
        (∀ w ∈ kindWords, mentionedIn [address'] w = mentionedIn [address] w) →
        kind client' = kind client) ∧
      ∀ client', Unsourced registry client' project name (before ++ after) →
        ((∀ w ∈ kindWords, mentionedIn [address] w = true → mentionedIn (before ++ after) w = true) →
          kind client = kind client') ∧
        ((∀ w ∈ tellingWords, mentionedIn (before ++ after) w = false) →
          (kind client = kind client' ↔ ∀ w ∈ tellingWords, mentionedIn [address] w = false)) := by
  intro kind
  have hkind {client : Client} {address : Text}
      (h : Unsourced registry client project name (before ++ address :: after)) :
      kind client = some (kindBy fun w => mentionedIn (before ++ after) w || mentionedIn [address] w) := by
    rw [← funext (mentionedIn_append_cons before after address)]
    exact h.foundKind?_eq period
  refine ⟨hkind h, fun client' address' h' hsame => ?_, fun client' h' => ?_⟩
  · rw [hkind h, hkind h', Option.some_inj]
    exact kindBy_congr fun w hw => by rw [hsame w hw]
  · have hwithout : kind client' = some (kindBy (mentionedIn (before ++ after))) := h'.foundKind?_eq period
    rw [hkind h, hwithout, Option.some_inj]
    constructor
    · intro hadds
      refine kindBy_congr fun w hw => ?_
      have hadds := hadds w hw
      grind
    · intro hnone
      rw [kindBy_eq_http_iff.2 hnone, kindBy_eq_http_iff]
      refine forall₂_congr fun w hw => ?_
      rw [hnone w hw, Bool.false_or]

/-! A function whose name says of whom it is. -/

namespace Sample

def notifyUser : Name := ⟨"notifyUser".toList, by decide, List.all_eq_true.1 (by decide +kernel), by decide⟩

def notifyUserAddress : Cell :=
  ⟨"https://demo/notifyUser".toList, ⟨by decide, by decide, by decide⟩, plain_of_all (by decide)⟩

def numberedAddress : Cell :=
  ⟨"https://demo/1".toList, ⟨by decide, by decide, by decide⟩, plain_of_all (by decide)⟩

/-- A client that lists one function and gives no source. -/
def listingClient (cells : List Cell) : Client where
  program := .text defaultProgram
  timeout := .int defaultTimeout
  reply
    | [.text "functions:list", _, _] => .printed (printTable [.entry notifyUser (httpsRow cells)])
    | _ => .failed

def period : Time.Period := ⟨⟨⟨2024, 5, 1⟩, {}, some 0⟩, ⟨⟨2024, 5, 1⟩, {}, some 0⟩⟩

theorem unsourced_notifyUser (cells : List Cell) : Unsourced .standard (listingClient cells) (.text "demo")
    notifyUser (httpsCell :: cells.map Cell.text) where
  listed := by
    refine ⟨_, httpsRow cells, rfl, List.nodup_singleton _, List.mem_singleton_self _, ?_⟩
    rw [httpsRow, List.map_map]
    rfl
  noSource := by
    rintro ⟨r, output, front, back, hprinted, -⟩
    cases hprinted

/-- The kind that is found for a row of the usual trigger and some more cells. -/
def kindBehind (cells : List Cell) : Option TriggerKind :=
  foundKind? .standard (listingClient cells) (.text "demo") period "notifyUser"

theorem kindBehind_eq (cells : List Cell) :
    kindBehind cells = some (kindBy (mentionedIn (httpsCell :: cells.map Cell.text))) :=
  (unsourced_notifyUser cells).foundKind?_eq period

theorem notifyUser_not_http : kindBehind [notifyUserAddress] = some .identityCreate ∧
    kindBehind [numberedAddress] = some .http ∧ kindBehind [] = some .http := by
  rw [kindBehind_eq, kindBehind_eq, kindBehind_eq]
  decide

theorem kindBehind_numberedAddress :
    Unsourced .standard (listingClient [numberedAddress]) (.text "demo") notifyUser
        ([httpsCell] ++ numberedAddress.text :: []) ∧
      kindBehind [numberedAddress] = kindBehind [] := by
  have h : Unsourced .standard (listingClient [numberedAddress]) (.text "demo") notifyUser
      ([httpsCell] ++ numberedAddress.text :: []) := unsourced_notifyUser [numberedAddress]
  obtain ⟨-, -, hwithout⟩ := foundKind?_address period h
  obtain ⟨-, hhttp⟩ := hwithout _ (unsourced_notifyUser [])
  exact ⟨h, (hhttp (by decide)).2 (by decide)⟩

end Sample

end BackendMigration.Inventory
