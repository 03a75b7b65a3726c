import BackendMigration.Proofs.Pattern.Matches
import BackendMigration.Proofs.Source.Nesting
import BackendMigration.Source.Arguments
import BackendMigration.Source.Body

/-! What the search for blocks and argument lists finds. -/
namespace BackendMigration.Source

/-- An opening delimiter, a nested text and the closing delimiter that matches. -/
def IsBlock (d : Delimiters) (t : Text) : Prop :=
  ∃ inner, t = d.opening :: (inner ++ [d.closing]) ∧ Nested d inner

variable {d : Delimiters}

/-- A block closes at the first closing delimiter that no block inside of it takes. -/
theorem closing?_eq_some {depth n : Nat} {t : Text} (h : closing? d depth t = some n) :
    ∃ inner rest, t = inner ++ d.closing :: rest ∧ n = inner.length + 1 ∧
      depthAfter? d depth inner = some 0 := by
  induction t generalizing depth n with
  | nil => simp [closing?] at h
  | cons c r ih =>
    simp only [closing?] at h
    by_cases ho : c = d.opening
    · rw [if_pos ho, Option.map_eq_some_iff] at h
      obtain ⟨m, hm, rfl⟩ := h
      obtain ⟨inner, rest, rfl, rfl, hd⟩ := ih hm
      exact ⟨c :: inner, rest, rfl, rfl, by simp [depthAfter?, ho, hd]⟩
    · rw [if_neg ho] at h
      by_cases hc : c = d.closing
      · rw [if_pos hc] at h
        cases depth with
        | zero =>
          obtain rfl : 1 = n := by simpa using h
          exact ⟨[], r, by simp [hc], rfl, rfl⟩
        | succ depth =>
          simp only [Option.map_eq_some_iff] at h
          obtain ⟨m, hm, rfl⟩ := h
          obtain ⟨inner, rest, rfl, rfl, hd⟩ := ih hm
          subst hc
          exact ⟨_ :: inner, rest, rfl, rfl, by simp [depthAfter?, ho, hd]⟩
      · rw [if_neg hc, Option.map_eq_some_iff] at h
        obtain ⟨m, hm, rfl⟩ := h
        obtain ⟨inner, rest, rfl, rfl, hd⟩ := ih hm
        exact ⟨c :: inner, rest, rfl, rfl, by simp [depthAfter?, ho, hc, hd]⟩

/-- A text that closes all but the first block is read up to the delimiter that closes it. -/
theorem closing?_of_depthAfter? (hd : d.Distinct) {depth : Nat} {inner : Text}
    (h : depthAfter? d depth inner = some 0) (rest : Text) :
    closing? d depth (inner ++ d.closing :: rest) = some (inner.length + 1) := by
  have hne : d.closing ≠ d.opening := fun e => hd e.symm
  induction inner generalizing depth with
  | nil =>
    obtain rfl : depth = 0 := by simpa [depthAfter?] using h
    simp [closing?, hne]
  | cons c r ih =>
    simp only [depthAfter?] at h
    simp only [List.cons_append, closing?]
    split at h
    · rename_i ho
      simp [ho, ih h]
    · rename_i ho
      split at h
      · rename_i hc
        cases depth with
        | zero => cases h
        | succ depth => simp [hc, hne, ih h]
      · rename_i hc
        simp [ho, hc, ih h]

/-- A text that closes more than the innermost blocks has the delimiter that closes the next one. -/
theorem exists_closing? {depth j k : Nat} {t : Text} (h : depthAfter? d (depth + j + 1) t = some k)
    (hk : k ≤ j) : ∃ n, closing? d depth t = some n := by
  induction t generalizing depth with
  | nil =>
    have : depth + j + 1 = k := by simpa [depthAfter?] using h
    omega
  | cons c r ih =>
    simp only [depthAfter?] at h
    simp only [closing?]
    split at h
    · rename_i ho
      have hdepth : depth + j + 1 + 1 = depth + 1 + j + 1 := by omega
      obtain ⟨n, hn⟩ := ih (hdepth ▸ h)
      exact ⟨n + 1, by rw [if_pos ho, hn]; rfl⟩
    · rename_i ho
      rw [if_neg ho]
      split at h
      · rename_i hc
        rw [if_pos hc]
        cases depth with
        | zero => exact ⟨1, rfl⟩
        | succ depth =>
          have hdepth : depth + 1 + j = depth + j + 1 := by omega
          obtain ⟨n, hn⟩ := ih (hdepth ▸ h)
          exact ⟨n + 1, congrArg (Option.map (· + 1)) hn⟩
      · rename_i hc
        obtain ⟨n, hn⟩ := ih h
        exact ⟨n + 1, by rw [if_neg hc, hn]; rfl⟩

/-- What stands between the delimiters of a block is nested. -/
theorem nested_of_closing? (hd : d.Distinct) {n : Nat} {t : Text} (h : closing? d 0 t = some n) :
    ∃ inner rest, t = inner ++ d.closing :: rest ∧ n = inner.length + 1 ∧ Nested d inner := by
  obtain ⟨inner, rest, ht, hn, hi⟩ := closing?_eq_some h
  exact ⟨inner, rest, ht, hn, (nested_iff hd).2 hi⟩

/-- What a nested text opens, it closes. -/
theorem exists_block_of_nested (hd : d.Distinct) {front t : Text}
    (h : Nested d (front ++ d.opening :: t)) :
    ∃ inner rest, t = inner ++ d.closing :: rest ∧ Nested d inner := by
  rw [nested_iff hd, depthAfter?_append, Option.bind_eq_some_iff] at h
  obtain ⟨depth, -, h⟩ := h
  simp only [depthAfter?, if_true] at h
  obtain ⟨n, hn⟩ := exists_closing? ((Nat.zero_add depth).symm ▸ h) (Nat.zero_le depth)
  obtain ⟨inner, rest, ht, -, hi⟩ := nested_of_closing? hd hn
  exact ⟨inner, rest, ht, hi⟩

theorem findBlock?_of_opening {t r : Text} {start n : Nat} (ht : t.drop start = d.opening :: r)
    (hn : closing? d 0 r = some n) : findBlock? d t start = some ⟨start, start + 1 + n⟩ := by
  simp [findBlock?, ht, hn]

/-- The block found opens at or after the start, with a delimiter that closes. -/
theorem findBlock?_eq_some {t : Text} {start : Nat} {s : Span} (h : findBlock? d t start = some s) :
    start ≤ s.start ∧ ∃ r n, t.drop s.start = d.opening :: r ∧ closing? d 0 r = some n ∧
      s.stop = s.start + 1 + n := by
  simp only [findBlock?] at h
  split at h
  · simp at h
  · rename_i c r hr
    obtain ⟨n, hn, rfl⟩ := Option.map_eq_some_iff.1 h
    have hsplit := List.takeWhile_append_dropWhile (p := (· != d.opening)) (l := t.drop start)
    rw [hr] at hsplit
    have hc : c = d.opening := by
      have := List.head?_dropWhile_not (· != d.opening) (t.drop start)
      simpa [hr] using this
    generalize (t.drop start).takeWhile (· != d.opening) = before at hsplit ⊢
    refine ⟨Nat.le_add_right .., r, n, ?_, hn, rfl⟩
    rw [← List.drop_drop, ← hsplit, List.drop_left, hc]

/-- The search finds a block again from where it opens. -/
theorem findBlock?_start {t : Text} {start : Nat} {s : Span} (h : findBlock? d t start = some s) :
    findBlock? d t s.start = some s := by
  obtain ⟨_, r, n, hr, hn, hs⟩ := findBlock?_eq_some h
  rw [findBlock?_of_opening hr hn, ← hs]

theorem isBlock_of_findBlock? (hd : d.Distinct) {t : Text} {start : Nat} {s : Span}
    (h : findBlock? d t start = some s) : IsBlock d (s.slice t) := by
  obtain ⟨_, r, n, hr, hn, hs⟩ := findBlock?_eq_some h
  obtain ⟨inner, rest, rfl, rfl, hi⟩ := nested_of_closing? hd hn
  refine ⟨inner, ?_, hi⟩
  rw [Span.slice, hr, hs, show s.start + 1 + (inner.length + 1) - s.start = inner.length + 1 + 1 by
    omega]
  simp [List.take_append, List.take_of_length_le]

theorem stop_le_of_findBlock? {t : Text} {start : Nat} {s : Span}
    (h : findBlock? d t start = some s) : s.stop ≤ t.length := by
  obtain ⟨_, r, n, hr, hn, hs⟩ := findBlock?_eq_some h
  have hl := congrArg List.length hr
  have := closing?_le hn
  simp only [List.length_drop, List.length_cons] at hl
  omega

theorem slice_between (front t back : Text) :
    (⟨front.length, front.length + t.length⟩ : Span).slice (front ++ (t ++ back)) = t := by
  rw [Span.slice, List.drop_left, Nat.add_sub_cancel_left, List.take_left]

/-- The search finds the block that opens first, if that closes. -/
theorem findBlock?_append_eq_some_iff (hd : d.Distinct) {front rest : Text} {s : Span} :
    findBlock? d (front ++ rest) front.length = some s ↔ ∃ skipped block back,
      rest = skipped ++ (block ++ back) ∧ d.opening ∉ skipped ∧ IsBlock d block ∧
        s = ⟨(front ++ skipped).length, (front ++ skipped).length + block.length⟩ := by
  rw [findBlock?, List.drop_left]
  constructor
  · intro h
    split at h
    · cases h
    · rename_i c r hr
      have hsplit := List.takeWhile_append_dropWhile (p := (· != d.opening)) (l := rest)
      rw [hr] at hsplit
      obtain rfl : c = d.opening := by
        have := List.head?_dropWhile_not (· != d.opening) rest
        simpa [hr] using this
      have hskip : d.opening ∉ rest.takeWhile (· != d.opening) := fun hmem => by
        simpa using List.all_eq_true.1 List.all_takeWhile _ hmem
      obtain ⟨n, hn, rfl⟩ := Option.map_eq_some_iff.1 h
      obtain ⟨inner, back, rfl, rfl, hi⟩ := nested_of_closing? hd hn
      generalize rest.takeWhile (· != d.opening) = skipped at hsplit hskip ⊢
      refine ⟨skipped, d.opening :: (inner ++ [d.closing]), back, ?_, hskip, ⟨inner, rfl, hi⟩, ?_⟩
      · rw [← hsplit]
        simp
      · simp [Nat.add_assoc, Nat.add_comm 1]
  · rintro ⟨skipped, _, back, rfl, hskip, ⟨inner, rfl, hi⟩, rfl⟩
    have hpass : ∀ a ∈ skipped, (a != d.opening) = true := fun a ha =>
      bne_iff_ne.2 fun h => hskip (h ▸ ha)
    rw [List.takeWhile_append_of_pos hpass, List.dropWhile_append_of_pos hpass]
    simp [closing?_of_depthAfter? hd ((nested_iff hd).1 hi) back, Nat.add_assoc, Nat.add_comm]

/-! Where argument lists open and close, and where their arguments lie. -/

theorem distinct_parentheses : Delimiters.parentheses.Distinct := by decide

theorem distinct_braces : Delimiters.braces.Distinct := by decide

variable {t : Text} {opened close : Nat}

/-- An argument list that closes is a block of the text. -/
theorem closeOfCall?_eq_some (h : closeOfCall? t opened = some close) :
    findBlock? .parentheses t opened = some ⟨opened, close⟩ := by
  unfold closeOfCall? at h
  split at h
  · rename_i r hr
    obtain ⟨n, hn, rfl⟩ := Option.map_eq_some_iff.1 h
    exact findBlock?_of_opening hr hn
  · cases h

theorem isBlock_of_closeOfCall? (h : closeOfCall? t opened = some close) :
    IsBlock .parentheses ((⟨opened, close⟩ : Span).slice t) :=
  isBlock_of_findBlock? distinct_parentheses (closeOfCall?_eq_some h)

theorem add_two_le_of_closeOfCall? (h : closeOfCall? t opened = some close) :
    opened + 2 ≤ close := by
  obtain ⟨_, r, n, _, hn, hs⟩ := findBlock?_eq_some (closeOfCall?_eq_some h)
  obtain ⟨inner, rest, _, rfl, _⟩ := closing?_eq_some hn
  change close = opened + 1 + (inner.length + 1) at hs
  omega

/-- The last parenthesis still open is one of the text, and what follows it is nested; else it is one
that was open before, and the text closes all that were opened after it. -/
theorem lastOpenFrom?_eq_some {before : List Nat} {offset k : Nat}
    (h : lastOpenFrom? before offset t = some k) :
    (∃ front after, t = front ++ '(' :: after ∧ k = offset + front.length ∧
        depthAfter? .parentheses 0 after = some 0) ∨
      ∃ j, before[j]? = some k ∧ depthAfter? .parentheses j t = some 0 := by
  induction t generalizing before offset with
  | nil => exact .inr ⟨0, by simpa [lastOpenFrom?, List.head?_eq_getElem?] using h, rfl⟩
  | cons c r ih =>
    simp only [lastOpenFrom?] at h
    have extend : (∃ front after, r = front ++ '(' :: after ∧ k = offset + 1 + front.length ∧
        depthAfter? .parentheses 0 after = some 0) →
        ∃ front after, c :: r = front ++ '(' :: after ∧ k = offset + front.length ∧
          depthAfter? .parentheses 0 after = some 0 := by
      rintro ⟨front, after, rfl, rfl, ha⟩
      exact ⟨c :: front, after, rfl, by simp only [List.length_cons]; omega, ha⟩
    split at h
    · rename_i ho
      rcases ih h with hin | ⟨j, hj, hd⟩
      · exact .inl (extend hin)
      · cases j with
        | zero =>
          obtain rfl : offset = k := by simpa using hj
          exact .inl ⟨[], r, by simp [ho], rfl, hd⟩
        | succ j => exact .inr ⟨j, hj, by simpa [depthAfter?, ho, Delimiters.parentheses] using hd⟩
    · rename_i ho
      split at h
      · rename_i hc
        rcases ih h with hin | ⟨j, hj, hd⟩
        · exact .inl (extend hin)
        · refine .inr ⟨j + 1, by simpa using hj, ?_⟩
          simpa [depthAfter?, ho, hc, Delimiters.parentheses] using hd
      · rename_i hc
        rcases ih h with hin | ⟨j, hj, hd⟩
        · exact .inl (extend hin)
        · exact .inr ⟨j, hj, by simpa [depthAfter?, ho, hc, Delimiters.parentheses] using hd⟩

/-- What follows the last parenthesis left open is nested. -/
theorem lastOpen?_eq_some {k : Nat} (h : lastOpen? t = some k) :
    ∃ front after, t = front ++ '(' :: after ∧ front.length = k ∧ Nested .parentheses after := by
  rcases lastOpenFrom?_eq_some h with ⟨front, after, ht, hk, ha⟩ | ⟨j, hj, _⟩
  · exact ⟨front, after, ht, by omega, (nested_iff distinct_parentheses).2 ha⟩
  · simp at hj

theorem bounds_of_mem_splitSpans {quote : Option Char} {depth : Int} {previous : Char}
    {start offset : Nat} {s : Span} (hle : start ≤ offset)
    (h : s ∈ splitSpans quote depth previous start offset t) :
    start ≤ s.start ∧ s.start ≤ s.stop ∧ s.stop ≤ offset + t.length := by
  fun_induction splitSpans quote depth previous start offset t with
  | case1 quote depth previous start offset =>
    obtain rfl := List.mem_singleton.1 h
    exact ⟨Nat.le_refl _, hle, Nat.le_refl _⟩
  | case6 depth previous start offset c r _ _ _ _ ih =>
    rcases List.mem_cons.1 h with rfl | h
    · exact ⟨Nat.le_refl _, hle, Nat.le_add_right ..⟩
    · have := ih (Nat.le_refl _) h
      simp only [List.length_cons]
      omega
  | _ =>
    rename_i ih
    have := ih (by omega) h
    simp only [List.length_cons]
    omega

/-- Arguments lie between the parentheses of their list. -/
theorem argumentSpans?_eq_some {spans : List Span} (h : argumentSpans? t opened = some spans) :
    ∃ close, closeOfCall? t opened = some close ∧
      ∀ s ∈ spans, opened < s.start ∧ s.start ≤ s.stop ∧ s.stop < close := by
  obtain ⟨close, hc, rfl⟩ := Option.map_eq_some_iff.1 h
  refine ⟨close, hc, fun s hs => ?_⟩
  have := add_two_le_of_closeOfCall? hc
  have hb := bounds_of_mem_splitSpans (Nat.le_refl _) (List.mem_filter.1 hs).1
  simp only [List.length_take] at hb
  omega

end BackendMigration.Source

/-! The bodies taken from a text are blocks of it. -/
namespace BackendMigration.Source

/-- A text is the block in braces that is found at the start of a span. -/
def IsBlockOf (t : Text) (block : Span) (body : Text) : Prop :=
  findBlock? .braces t block.start = some block ∧ body = block.slice t

variable {t : Text} {span : Span}

theorem isBlockOf_slice {start : Nat} {block : Span} (h : findBlock? .braces t start = some block) :
    IsBlockOf t block (block.slice t) := ⟨findBlock?_start h, rfl⟩

theorem exists_of_extractBlock {start : Nat} (h : extractBlock t start ≠ []) :
    ∃ block, IsBlockOf t block (extractBlock t start) := by
  unfold extractBlock at h ⊢
  split at h
  · rename_i block hb
    exact ⟨block, isBlockOf_slice hb⟩
  · exact absurd rfl h

theorem exists_of_firstBlockOfSize {whole : Text} {size offset : Nat} (ht : whole.drop offset = t)
    (h : firstBlockOfSize size t ≠ []) : ∃ block, IsBlockOf whole block (firstBlockOfSize size t) := by
  induction t generalizing offset with
  | nil => exact absurd rfl h
  | cons c r ih =>
    have hr : whole.drop (offset + 1) = r := by rw [← List.drop_drop, ht]; rfl
    simp only [firstBlockOfSize] at h ⊢
    split at h
    · rename_i n hn
      split at h
      · rename_i hsize
        simp only [if_pos hsize]
        split at hn
        · rename_i ho
          subst ho
          refine ⟨⟨offset, offset + 1 + n⟩, findBlock?_of_opening ht hn, ?_⟩
          rw [Span.slice, ht, show offset + 1 + n - offset = n + 1 by omega]
        · cases hn
      · rename_i hsize
        simp only [if_neg hsize]
        exact ih hr h
    · exact ih hr h

theorem offset_advance_le (n : Nat) (c : Cursor) :
    (c.advance n).offset = c.offset + min n c.rest.length := by
  induction n generalizing c with
  | zero => simp [Cursor.advance]
  | succ n ih =>
    unfold Cursor.advance
    split
    · rename_i hr
      simp [hr]
    · rename_i a r hr
      rw [ih, hr, List.length_cons]
      simp only
      omega

/-- The body of a function expression begins inside of its span. -/
theorem start_le_of_bodyStart? (hs : span.start ≤ span.stop) (hl : span.stop ≤ t.length) {after : Nat}
    (h : bodyStart? t span = some after) : span.start ≤ after := by
  unfold bodyStart? at h
  split at h
  · cases h
  · rename_i head hh
    obtain ⟨h1, h2⟩ := Pattern.offset_le_of_search? hh
    rw [cursorAt, offset_advance_le, Cursor.start, List.length_take] at h1
    split at h
    · cases h
      omega
    · have := add_two_le_of_closeOfCall? h
      omega

/-- The body of a function expression is a block within its span. -/
theorem exists_of_functionBody (hs : span.start ≤ span.stop) (hl : span.stop ≤ t.length)
    (h : functionBody t span ≠ []) :
    ∃ block, IsBlockOf t block (functionBody t span) ∧ span.start ≤ block.start ∧
      block.stop ≤ span.stop := by
  unfold functionBody at h ⊢
  split at h
  · exact absurd rfl h
  · rename_i after ha
    have hstart := start_le_of_bodyStart? hs hl ha
    dsimp only at h ⊢
    split at h
    · split at h
      · rename_i block hb
        split at h
        · rename_i hstop
          obtain ⟨hle, _⟩ := findBlock?_eq_some hb
          simp only [if_pos hstop]
          exact ⟨block, isBlockOf_slice hb, by omega, hstop⟩
        · exact absurd rfl h
      · exact absurd rfl h
    · exact absurd rfl h

end BackendMigration.Source
