import BackendMigration.Proofs.Export.Enumeration
import BackendMigration.Proofs.Inventory.Address
import BackendMigration.Proofs.Recognition.Names
import BackendMigration.Proofs.Source.Tokens
import BackendMigration.Proofs.Text.Pieces

/-! A printed table of functions is read as the functions that it shows. -/
namespace BackendMigration.Inventory

open Text (Firm)

/-- What stands in a cell: at least one character, none of them a bar or the end of a line, and no white
space at either end. -/
structure Cell where
  text : Text
  firm : Firm Text.isBlank text
  plain : ∀ c ∈ text, isBar c = false ∧ Text.endsLine c = false

/-- A name of word characters and dashes that is no header word. -/
structure Name where
  text : Text
  ne_nil : text ≠ []
  listed : ∀ c ∈ text, isListedChar c = true
  notHeader : isHeader text = false

/-- A bar between two cells, and the number of spaces on each side of it. -/
structure Separator where
  left : Nat
  bar : Char
  right : Nat
  isBar_bar : isBar bar = true

/-- A row behind its first cell and around its cells: the other cells behind their separators, and the
spaces and bars at both ends. There is a bar somewhere. -/
structure Row where
  opening : Text
  cells : List (Separator × Cell)
  closing : Text
  edges : ∀ c ∈ opening ++ closing, isBar c = true ∨ c = ' '
  hasBar : cells ≠ [] ∨ ∃ c ∈ opening ++ closing, isBar c = true

variable {c : Char} {t : Text}

theorem isBlank_of_endsLine (h : Text.endsLine c = true) : Text.isBlank c = true := by
  simp only [Text.endsLine, Bool.or_eq_true, Bool.and_eq_true, decide_eq_true_eq, beq_iff_eq] at h
  simp only [Text.isBlank, Bool.or_eq_true, Bool.and_eq_true, decide_eq_true_eq, beq_iff_eq]
  omega

theorem eq_or_eq_of_isBar (h : isBar c = true) : c = '│' ∨ c = '|' := by
  have hbars : isBar c = ['│', '|'].contains c := by
    rw [isBar, bars]
    simp
  simpa [hbars] using h

theorem isBlank_of_isBar (h : isBar c = true) : Text.isBlank c = false := by
  rcases eq_or_eq_of_isBar h with rfl | rfl
  · decide
  · decide

theorem isBar_of_isListedChar (h : isListedChar c = true) : isBar c = false := by
  by_contra hbar
  rcases eq_or_eq_of_isBar (by simpa using hbar) with rfl | rfl
  · exact absurd h (by decide +kernel)
  · exact absurd h (by decide +kernel)

theorem isBlank_of_isListedChar (h : isListedChar c = true) : Text.isBlank c = false := by
  by_contra hblank
  have hblank : Text.isBlank c = true := by simpa using hblank
  rcases Bool.or_eq_true_iff.1 h with h | h
  · rw [Source.isWord_eq_false_of_isBlank hblank] at h
    cases h
  · obtain rfl := beq_iff_eq.1 h
    exact absurd hblank (by decide)

theorem endsLine_of_isBlank (h : Text.isBlank c = false) : Text.endsLine c = false := by
  by_contra hends
  rw [isBlank_of_endsLine (by simpa using hends)] at h
  cases h

/-- The cell of a name. -/
def Name.cell (n : Name) : Cell where
  text := n.text
  firm := by
    refine ⟨n.ne_nil, ?_, ?_⟩
    · obtain ⟨a, r, h⟩ := List.exists_cons_of_ne_nil n.ne_nil
      rw [h]
      exact isBlank_of_isListedChar (n.listed a (by rw [h]; exact List.mem_cons_self))
    · rw [List.getLast?_eq_some_getLast n.ne_nil]
      exact isBlank_of_isListedChar (n.listed _ (List.getLast_mem n.ne_nil))
  plain c hc := ⟨isBar_of_isListedChar (n.listed c hc),
    endsLine_of_isBlank (isBlank_of_isListedChar (n.listed c hc))⟩

/-! A table as it is printed. -/

def Separator.print (s : Separator) : Text :=
  List.replicate s.left ' ' ++ s.bar :: List.replicate s.right ' '

/-- A cell and the cells behind it. -/
def printCells (first : Cell) : List (Separator × Cell) → Text
  | [] => first.text
  | (s, c) :: rest => first.text ++ (s.print ++ printCells c rest)

def Row.print (row : Row) (first : Cell) : Text :=
  row.opening ++ (printCells first row.cells ++ row.closing)

/-- A line of a table: a function, a header, or a border, in which there is neither a bar nor an address. -/
inductive Line where
  | entry (name : Name) (row : Row)
  | header (first : Cell) (row : Row) (isHeader_first : isHeader first.text = true)
  | border (text : Text) (plain : ∀ c ∈ text, isBar c = false ∧ Text.endsLine c = false)
      (noAddress : address? Text.isBlank text = none)

def Line.print : Line → Text
  | entry name row => row.print name.cell
  | header first row _ => row.print first
  | border text _ _ => text

def printTable (table : List Line) : String := String.ofList (Text.join ['\n'] (table.map Line.print))

/-- The function that a line shows: its trigger is what the cells behind the name hold, and its address the
first one in a cell, which ends with the cell or before white space. -/
def Line.function? : Line → Option Listed
  | entry name row =>
    let cells := row.cells.map (·.2.text)
    some ⟨String.ofList name.text, String.ofList (Text.join [' '] cells),
      ((name.text :: cells).findSome? (address? Text.isBlank)).map String.ofList⟩
  | header .. | border .. => none

/-! A row is cut into its cells. -/

variable {first : Cell} {cells : List (Separator × Cell)} {row : Row}

theorem Cell.firm_isBar (cell : Cell) : Firm (fun c => isBar c || c == ' ') cell.text := by
  refine cell.firm.mono fun c hc hblank => ?_
  have hspace : (c == ' ') = false := by
    rw [beq_eq_false_iff_ne]
    rintro rfl
    cases hblank
  rw [(cell.plain c hc).1, hspace]
  rfl

theorem firm_printCells {drop : Char → Bool} (hdrop : ∀ cell : Cell, Firm drop cell.text) (first : Cell)
    (cells : List (Separator × Cell)) : Firm drop (printCells first cells) := by
  induction cells generalizing first with
  | nil => exact hdrop first
  | cons p rest ih => exact (hdrop first).append (ih p.2) p.1.print

theorem strip_print (first : Cell) (row : Row) : Text.strip (row.print first) =
    Text.trimStart Text.isBlank row.opening ++
      (printCells first row.cells ++ Text.trimEnd Text.isBlank row.closing) :=
  (firm_printCells (fun cell => cell.firm) first row.cells).trim_append row.opening row.closing

theorem trim_strip_print (first : Cell) (row : Row) :
    Text.trim (fun c => isBar c || c == ' ') (Text.strip (row.print first)) =
      printCells first row.cells := by
  have hedge : ∀ c ∈ row.opening ++ row.closing, (isBar c || c == ' ') = true := by
    intro c hc
    rcases row.edges c hc with h | rfl
    · rw [h, Bool.true_or]
    · decide
  rw [strip_print]
  refine (firm_printCells Cell.firm_isBar first row.cells).trim_eq (fun c hc => ?_) fun c hc => ?_
  · exact hedge c (List.mem_append_left _ ((List.dropWhile_sublist _).subset hc))
  · exact hedge c (List.mem_append_right _ ((Text.trimEnd_isPrefix _ _).subset hc))

theorem isBar_of_mem_spaces {n : Nat} (h : c ∈ List.replicate n ' ') : isBar c = false := by
  obtain rfl := List.eq_of_mem_replicate h
  decide

theorem isBlank_of_mem_spaces {n : Nat} (h : c ∈ List.replicate n ' ') : Text.isBlank c = true := by
  obtain rfl := List.eq_of_mem_replicate h
  rfl

/-- The text up to the first separator is cut off. -/
theorem splitBy_printCells (n : Nat) (first : Cell) (s : Separator) (cell : Cell)
    (rest : List (Separator × Cell)) :
    Text.splitBy isBar (List.replicate n ' ' ++ printCells first ((s, cell) :: rest)) =
      (List.replicate n ' ' ++ (first.text ++ List.replicate s.left ' ')) ::
        Text.splitBy isBar (List.replicate s.right ' ' ++ printCells cell rest) := by
  have hnoBar : ∀ c ∈ List.replicate n ' ' ++ (first.text ++ List.replicate s.left ' '), isBar c = false := by
    intro c hc
    rcases List.mem_append.1 hc with hc | hc
    · exact isBar_of_mem_spaces hc
    · rcases List.mem_append.1 hc with hc | hc
      · exact (first.plain c hc).1
      · exact isBar_of_mem_spaces hc
  rw [← Text.splitBy_append_cons hnoBar s.isBar_bar]
  simp [printCells, Separator.print]

theorem splitBy_cell (n : Nat) (cell : Cell) :
    Text.splitBy isBar (List.replicate n ' ' ++ cell.text) = [List.replicate n ' ' ++ cell.text] := by
  refine Text.splitBy_of_not_cut fun c hc => ?_
  rcases List.mem_append.1 hc with hc | hc
  · exact isBar_of_mem_spaces hc
  · exact (cell.plain c hc).1

theorem trimStart_spaces (n : Nat) : Text.trimStart Text.isBlank (List.replicate n ' ') = [] :=
  (Text.trimStart_eq_nil_iff _ _).2 fun _ => isBlank_of_mem_spaces

theorem trimEnd_spaces (n : Nat) : Text.trimEnd Text.isBlank (List.replicate n ' ') = [] :=
  Text.trimEnd_eq_nil fun _ => isBlank_of_mem_spaces

/-- The white space around cells goes. -/
theorem trimCells_splitBy (n : Nat) (first : Cell) (cells : List (Separator × Cell)) :
    trimCells (Text.splitBy isBar (List.replicate n ' ' ++ printCells first cells)) =
      first.text :: cells.map (·.2.text) := by
  induction cells generalizing n first with
  | nil =>
    have htrim := first.firm.trimStart_append (List.replicate n ' ') []
    rw [trimStart_spaces, List.nil_append, List.append_nil] at htrim
    rw [printCells, splitBy_cell, trimCells, htrim]
    rfl
  | cons p rest ih =>
    obtain ⟨s, cell⟩ := p
    obtain ⟨piece, pieces, hpieces⟩ := List.exists_cons_of_ne_nil (Text.splitBy_ne_nil isBar
      (List.replicate s.right ' ' ++ printCells cell rest))
    have ih := ih s.right cell
    have hcons (t : Text) : trimCells (t :: piece :: pieces) = Text.strip t :: trimCells (piece :: pieces) :=
      rfl
    have hstrip : Text.strip (List.replicate n ' ' ++ (first.text ++ List.replicate s.left ' ')) =
        first.text := by
      rw [Text.strip, first.firm.trim_append, trimStart_spaces, trimEnd_spaces, List.nil_append,
        List.append_nil]
    rw [hpieces] at ih
    rw [splitBy_printCells, hpieces, hcons, hstrip, ih]
    rfl

theorem rowCells_strip_print (first : Cell) (row : Row) :
    rowCells (Text.strip (row.print first)) = first.text :: row.cells.map (·.2.text) := by
  have hkept : (first.text :: row.cells.map (·.2.text)).filter (fun c => !c.isEmpty) =
      first.text :: row.cells.map (·.2.text) := by
    refine List.filter_eq_self.2 fun t ht => ?_
    have hne : t ≠ [] := by
      rcases List.mem_cons.1 ht with rfl | ht
      · exact first.firm.ne_nil
      · obtain ⟨p, -, rfl⟩ := List.mem_map.1 ht
        exact p.2.firm.ne_nil
    simpa using hne
  rw [rowCells, trim_strip_print, ← hkept]
  congr 1
  cases hcells : row.cells with
  | nil =>
    have hsplit := splitBy_cell 0 first
    rw [List.replicate_zero, List.nil_append] at hsplit
    rw [printCells, hsplit]
    rfl
  | cons p rest =>
    obtain ⟨s, cell⟩ := p
    have hsplit := splitBy_printCells 0 first s cell rest
    have htrim := first.firm.trimEnd_append [] (List.replicate s.left ' ')
    have hrest := trimCells_splitBy s.right cell rest
    obtain ⟨piece, pieces, hpieces⟩ := List.exists_cons_of_ne_nil (Text.splitBy_ne_nil isBar
      (List.replicate s.right ' ' ++ printCells cell rest))
    rw [List.nil_append, trimEnd_spaces, List.append_nil] at htrim
    rw [hpieces] at hrest
    rw [List.replicate_zero, List.nil_append, List.nil_append, hpieces] at hsplit
    rw [hsplit]
    dsimp only
    rw [htrim, hrest]
    rfl

/-! The address of a row is the first one in its cells. -/

theorem endsAddress_of_isBar (h : isBar c = true) : endsAddress c = true := by
  rw [endsAddress, h, Bool.or_true]

theorem endsAddress_of_mem_spaces {n : Nat} : ∀ c ∈ List.replicate n ' ', endsAddress c = true := by
  intro c hc
  rw [endsAddress, isBlank_of_mem_spaces hc, Bool.true_or]

theorem address?_plain (h : ∀ c ∈ t, isBar c = false ∧ Text.endsLine c = false) :
    address? endsAddress t = address? Text.isBlank t :=
  address?_congr fun c hc => by rw [endsAddress, (h c hc).1, Bool.or_false]

theorem address?_printCells (first : Cell) (cells : List (Separator × Cell)) :
    address? endsAddress (printCells first cells) =
      (first.text :: cells.map (·.2.text)).findSome? (address? Text.isBlank) := by
  have hcons (t : Text) (ts : List Text) : (t :: ts).findSome? (address? Text.isBlank) =
      (address? Text.isBlank t).or (ts.findSome? (address? Text.isBlank)) := by
    rw [List.findSome?_cons]
    cases address? Text.isBlank t with
    | none => rfl
    | some _ => rfl
  induction cells generalizing first with
  | nil =>
    rw [printCells, address?_plain first.plain, List.map_nil, hcons, List.findSome?_nil, Option.or_none]
  | cons p rest ih =>
    obtain ⟨s, cell⟩ := p
    have hprint : printCells first ((s, cell) :: rest) = (first.text ++ List.replicate s.left ' ') ++
        s.bar :: (List.replicate s.right ' ' ++ printCells cell rest) := by
      simp [printCells, Separator.print]
    rw [hprint, address?_append_cons (endsAddress_of_isBar s.isBar_bar),
      address?_append_right endsAddress_of_mem_spaces, address?_append_left endsAddress_of_mem_spaces,
      address?_plain first.plain, ih, hcons first.text]
    rfl

theorem address?_strip_print (first : Cell) (row : Row) :
    address? endsAddress (Text.strip (row.print first)) =
      (first.text :: row.cells.map (·.2.text)).findSome? (address? Text.isBlank) := by
  have hedges : ∀ c ∈ row.opening ++ row.closing, endsAddress c = true := by
    intro c hc
    rcases row.edges c hc with h | rfl
    · exact endsAddress_of_isBar h
    · decide
  rw [address?_strip, Row.print, address?_append_left fun c hc => hedges c (List.mem_append_left _ hc),
    address?_append_right fun c hc => hedges c (List.mem_append_right _ hc), address?_printCells]

/-! What is read off a line. -/

theorem any_isBar_strip_print (first : Cell) (row : Row) :
    (Text.strip (row.print first)).any isBar = true := by
  obtain ⟨c, hc, hbar⟩ : ∃ c ∈ row.print first, isBar c = true := by
    rcases row.hasBar with hcells | ⟨c, hc, hbar⟩
    · obtain ⟨⟨s, cell⟩, rest, hcells⟩ := List.exists_cons_of_ne_nil hcells
      refine ⟨s.bar, ?_, s.isBar_bar⟩
      simp [Row.print, hcells, printCells, Separator.print]
    · refine ⟨c, ?_, hbar⟩
      rcases List.mem_append.1 hc with hc | hc
      · exact List.mem_append_left _ hc
      · exact List.mem_append_right _ (List.mem_append_right _ hc)
  exact List.any_eq_true.2 ⟨c, Text.mem_strip hc (isBlank_of_isBar hbar), hbar⟩

theorem isSome_cellNamePattern_iff : (cellNamePattern.matchAll? t).isSome = true ↔
    t ≠ [] ∧ ∀ c ∈ t, isListedChar c = true := by
  rw [Pattern.isSome_matchAll?_iff (by decide), cellNamePattern, Pattern.spells_repeated_one]
  rfl

theorem listed?_strip_print (line : Line) : listed? (Text.strip line.print) = line.function? := by
  cases line with
  | entry name row =>
    have hname : (cellNamePattern.matchAll? name.text).isNone = false := by
      rw [Option.isNone_eq_false_iff]
      exact isSome_cellNamePattern_iff.2 ⟨name.ne_nil, name.listed⟩
    rw [Line.print, listed?]
    rw [if_pos (any_isBar_strip_print _ _), map_search?_urlPattern, address?_strip_print, listedInRow?,
      rowCells_strip_print]
    dsimp only [Name.cell]
    rw [hname, name.notHeader]
    rfl
  | header first row hheader =>
    rw [Line.print, listed?]
    rw [if_pos (any_isBar_strip_print _ _), listedInRow?, rowCells_strip_print]
    dsimp only
    rw [hheader, Bool.or_true]
    rfl
  | border text plain noAddress =>
    have hbar : ¬(Text.strip text).any isBar = true := by
      intro h
      obtain ⟨c, hc, hbar⟩ := List.any_eq_true.1 h
      obtain ⟨w, w', ht, -⟩ := Text.exists_strip text
      have hmem : c ∈ text := by
        rw [ht]
        exact List.mem_append_right _ (List.mem_append_left _ hc)
      rw [(plain c hmem).1] at hbar
      cases hbar
    have hnone : address? endsAddress (Text.strip text) = none := by
      rw [address?_strip, address?_plain plain, noAddress]
    rw [Line.print, listed?]
    rw [if_neg hbar, map_search?_urlPattern, hnone]
    rfl

theorem endsLine_of_edge (h : isBar c = true ∨ c = ' ') : Text.endsLine c = false := by
  rcases h with h | rfl
  · exact endsLine_of_isBlank (isBlank_of_isBar h)
  · decide

theorem endsLine_of_mem_printCells (first : Cell) (cells : List (Separator × Cell)) :
    ∀ c ∈ printCells first cells, Text.endsLine c = false := by
  induction cells generalizing first with
  | nil => exact fun c hc => (first.plain c hc).2
  | cons p rest ih =>
    obtain ⟨s, cell⟩ := p
    intro c hc
    rcases List.mem_append.1 hc with hc | hc
    · exact (first.plain c hc).2
    · rcases List.mem_append.1 hc with hc | hc
      · refine endsLine_of_edge ?_
        rcases List.mem_append.1 hc with hc | hc
        · exact .inr (List.eq_of_mem_replicate hc)
        · rcases List.mem_cons.1 hc with rfl | hc
          · exact .inl s.isBar_bar
          · exact .inr (List.eq_of_mem_replicate hc)
      · exact ih cell c hc

theorem endsLine_of_mem_print (line : Line) : ∀ c ∈ line.print, Text.endsLine c = false := by
  have hrow (first : Cell) (row : Row) : ∀ c ∈ row.print first, Text.endsLine c = false := by
    intro c hc
    rcases List.mem_append.1 hc with hc | hc
    · exact endsLine_of_edge (row.edges c (List.mem_append_left _ hc))
    · rcases List.mem_append.1 hc with hc | hc
      · exact endsLine_of_mem_printCells first row.cells c hc
      · exact endsLine_of_edge (row.edges c (List.mem_append_right _ hc))
  cases line with
  | entry name row => exact hrow name.cell row
  | header first row _ => exact hrow first row
  | border text plain _ => exact fun c hc => (plain c hc).2

/-! A table is read. -/

theorem distinctNames_eq_firstsBy (seen : List String) (fs : List Listed) :
    distinctNames seen fs = Export.firstsBy Listed.name seen fs := by
  induction fs generalizing seen with
  | nil => rfl
  | cons f fs ih => rw [distinctNames, Export.firstsBy, ih, ih]

theorem distinctNames_eq_self {seen : List String} {fs : List Listed}
    (hfs : (fs.map Listed.name).Nodup) (hseen : ∀ f ∈ fs, f.name ∉ seen) : distinctNames seen fs = fs := by
  induction fs generalizing seen with
  | nil => rfl
  | cons f fs ih =>
    rw [List.map_cons, List.nodup_cons] at hfs
    obtain ⟨hf, hfs⟩ := hfs
    rw [distinctNames, if_neg (hseen f List.mem_cons_self), ih hfs]
    intro g hg hmem
    rcases List.mem_cons.1 hmem with h | h
    · exact hf (List.mem_map.2 ⟨g, hg, h⟩)
    · exact hseen g (List.mem_cons_of_mem f hg) h

/-- Reading a printed table gives the functions it shows, in their order; of those with the same name the
first one only. -/
theorem readListing_printTable (table : List Line) :
    readListing (printTable table) =
        (table.filterMap Line.function?).eraseDupsBy (fun f g => f.name == g.name) ∧
      (((table.filterMap Line.function?).map Listed.name).Nodup →
        readListing (printTable table) = table.filterMap Line.function?) := by
  have hread : readListing (printTable table) = distinctNames [] (table.filterMap Line.function?) := by
    have hlines : ∀ t ∈ table.map Line.print, ∀ c ∈ t, Text.endsLine c = false := by
      intro t ht
      obtain ⟨line, -, rfl⟩ := List.mem_map.1 ht
      exact endsLine_of_mem_print line
    rw [readListing, printTable, String.toList_ofList, Text.filterMap_wideLines_join (by decide) hlines,
      List.filterMap_map]
    congr 2
    exact funext listed?_strip_print
  constructor
  · rw [hread, distinctNames_eq_firstsBy, Export.eraseDupsBy_eq_firstsBy]
  · intro hnodup
    rw [hread]
    exact distinctNames_eq_self hnodup fun _ _ => List.not_mem_nil

/-! A table of two functions. -/

namespace Sample

theorem plain_of_all (h : t.all (fun c => !isBar c && !Text.endsLine c) = true) :
    ∀ c ∈ t, isBar c = false ∧ Text.endsLine c = false := by
  simpa using h

theorem edges_of_all (h : t.all (fun c => isBar c || c == ' ') = true) : ∀ c ∈ t, isBar c = true ∨ c = ' ' := by
  simpa using h

def function : Cell := ⟨"Function".toList, ⟨by decide, by decide, by decide⟩, plain_of_all (by decide)⟩

def trigger : Cell := ⟨"Trigger".toList, ⟨by decide, by decide, by decide⟩, plain_of_all (by decide)⟩

def https : Cell := ⟨"https".toList, ⟨by decide, by decide, by decide⟩, plain_of_all (by decide)⟩

def address : Cell :=
  ⟨"at https://demo/hello".toList, ⟨by decide, by decide, by decide⟩, plain_of_all (by decide)⟩

def userCreate : Cell := ⟨"user.create".toList, ⟨by decide, by decide, by decide⟩, plain_of_all (by decide)⟩

def hello : Name := ⟨"hello".toList, by decide, List.all_eq_true.1 (by decide +kernel), by decide⟩

def onUser : Name := ⟨"on-user".toList, by decide, List.all_eq_true.1 (by decide +kernel), by decide⟩

def table : List Line := [
  .border "┌──────┐".toList (plain_of_all (by decide)) (by decide),
  .header function ⟨"│ ".toList, [(⟨1, '│', 1, by decide⟩, trigger)], " │".toList,
    edges_of_all (by decide), .inl (List.cons_ne_nil _ _)⟩ (by decide),
  .border "├──────┤".toList (plain_of_all (by decide)) (by decide),
  .entry hello ⟨"│ ".toList, [(⟨4, '│', 1, by decide⟩, https), (⟨0, '|', 2, by decide⟩, address)],
    " │".toList, edges_of_all (by decide), .inl (List.cons_ne_nil _ _)⟩,
  .entry onUser ⟨"|".toList, [(⟨0, '|', 0, by decide⟩, userCreate)], [], edges_of_all (by decide),
    .inl (List.cons_ne_nil _ _)⟩]

theorem readListing_table : ((table.filterMap Line.function?).map Listed.name).Nodup ∧
    readListing (printTable table) =
      [⟨"hello", "https at https://demo/hello", some "https://demo/hello"⟩,
        ⟨"on-user", "user.create", none⟩] := by
  have hfunctions : table.filterMap Line.function? =
      [⟨"hello", "https at https://demo/hello", some "https://demo/hello"⟩,
        ⟨"on-user", "user.create", none⟩] := by decide +kernel
  have hnodup : ((table.filterMap Line.function?).map Listed.name).Nodup := by
    rw [hfunctions]
    decide
  refine ⟨hnodup, ?_⟩
  rw [(readListing_printTable table).2 hnodup, hfunctions]

end Sample

end BackendMigration.Inventory
