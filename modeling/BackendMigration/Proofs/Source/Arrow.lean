import BackendMigration.Proofs.Pattern.Matches
import BackendMigration.Proofs.Pattern.Occurs
import BackendMigration.Proofs.Pattern.Spells
import BackendMigration.Proofs.Source.Block
import BackendMigration.Proofs.Source.Parts
import BackendMigration.Proofs.Source.Tokens

/-! The body of an arrow function: the search takes the first arrow or keyword function for the head, also
one that stands in the parameters. -/
namespace BackendMigration.Source

open Text Pattern

/-- An arrow function with a block for its body, and white space around it. -/
structure ArrowFunction where
  leading : Text
  /-- The white space behind `async`, if that stands before the parameters. -/
  async : Option Text
  params : Text
  beforeArrow : Text
  afterArrow : Text
  block : Text
  trailing : Text
  blank : ∀ b ∈ [leading, async.getD [], beforeArrow, afterArrow, trailing], allBlank b = true
  nested : Nested .parentheses params
  isBlock : IsBlock .braces block

namespace ArrowFunction

/-- What stands before the parameters. -/
def lead (f : ArrowFunction) : Text :=
  f.leading ++ (f.async.elim [] fun b => "async".toList ++ b) ++ ['(']

/-- What stands before the arrow. -/
def head (f : ArrowFunction) : Text := f.lead ++ (f.params ++ ')' :: f.beforeArrow)

/-- What stands behind the arrow. -/
def tail (f : ArrowFunction) : Text := f.afterArrow ++ (f.block ++ f.trailing)

def text (f : ArrowFunction) : Text := f.head ++ ("=>".toList ++ f.tail)

/-- The parameters have an arrow of their own, or the keyword of a function and a parenthesis somewhere
behind it that can be taken for the one that opens its parameter list. -/
def HoldsHead (f : ArrowFunction) : Prop :=
  "=>".toList <:+: f.params ∨ ∃ u v, f.params = u ++ ("function".toList ++ v) ∧
    u.getLast?.any isWord = false ∧ v.head?.any isWord = false ∧ ('(' ∈ v ∨ '(' ∈ f.block)

end ArrowFunction

variable {f : ArrowFunction} {front back t s u v before after block : Text} {span : Span}

/-! Where a head is found. -/

/-- An arrow stands here, or the keyword of a function with a parenthesis behind it. -/
def HeadAt (front back : Text) : Prop :=
  "=>".toList <+: back ∨ ∃ r, back = "function".toList ++ r ∧ front.getLast?.any isWord = false ∧
    r.head?.any isWord = false ∧ '(' ∈ r

theorem isWordEdge_before_iff {a : Char} (ha : isWord a = true) :
    (Cursor.between front (a :: back)).isWordEdge = true ↔ front.getLast?.any isWord = false := by
  simp [Cursor.isWordEdge, Cursor.between, ha]

theorem isWordEdge_after_iff {a : Char} (ha : isWord a = true) :
    (Cursor.between (front ++ [a]) back).isWordEdge = true ↔ back.head?.any isWord = false := by
  simp [Cursor.isWordEdge, Cursor.between, ha]

theorem isSome_matchAt?_functionHead :
    (functionHead.matchAt? (.between front back)).isSome = true ↔ HeadAt front back := by
  rw [isSome_matchAt?_iff]
  have hfirst : "function".toList = 'f' :: "unction".toList := by decide
  have hlast : "function".toList = "functio".toList ++ ['n'] := by decide
  constructor
  · rintro ⟨c', h⟩
    rcases takes_alt_iff.1 h with h | h
    · obtain ⟨t, ht, hr⟩ := h.spells
      exact .inl ⟨c'.rest, (spells_text.1 ht) ▸ hr.symm⟩
    · obtain ⟨_, hedge, h⟩ := takes_seq_iff.1 h
      obtain ⟨hbefore, rfl⟩ := takes_wordEdge_iff.1 hedge
      obtain ⟨_, hname, h⟩ := takes_seq_iff.1 h
      obtain ⟨s, r, hs, rfl, rfl⟩ := hname.exists_between
      obtain rfl := spells_text.1 hs
      obtain ⟨_, hedge, h⟩ := takes_seq_iff.1 h
      obtain ⟨hafter, rfl⟩ := takes_wordEdge_iff.1 hedge
      obtain ⟨s, r, hs, rfl, -⟩ := h.exists_between
      obtain ⟨w, rfl⟩ := exists_of_endsWith (a := '(') rfl hs
      rw [hfirst, List.cons_append, isWordEdge_before_iff (by decide)] at hbefore
      rw [hlast, ← List.append_assoc, isWordEdge_after_iff (by decide)] at hafter
      exact .inr ⟨_, rfl, hbefore, hafter, by simp⟩
  · rintro (⟨r, rfl⟩ | ⟨r, rfl, hbefore, hafter, hopening⟩)
    · exact ⟨_, .left (takes_text "=>" front r)⟩
    · obtain ⟨w, r, rfl, hw⟩ := List.eq_append_cons_of_mem hopening
      have hclass : ∀ a ∈ w, (CharClass.noneOf "(").holds a = true := by
        intro a ha
        have hne : a ≠ '(' := fun h => hw (h ▸ ha)
        change (!(CharClass.oneOf "(").holds a) = true
        simpa [CharClass.holds_oneOf] using hne
      have hstart : (Cursor.between front ("function".toList ++ (w ++ '(' :: r))).isWordEdge = true := by
        rw [hfirst]
        exact (isWordEdge_before_iff (by decide)).2 hbefore
      have hend : (Cursor.between (front ++ "function".toList) (w ++ '(' :: r)).isWordEdge = true := by
        rw [hlast, ← List.append_assoc]
        exact (isWordEdge_after_iff (by decide)).2 hafter
      exact ⟨_, .right (.seq (.wordEdge hstart) (.seq (takes_text _ _ _) (.seq (.wordEdge hend)
        (.seq (takes_many_one hclass _ _) (.seq (takes_text "(" _ r) (.nothing _))))))⟩

theorem matchAt?_functionHead_arrow (front back : Text) :
    functionHead.matchAt? (.between front ("=>".toList ++ back)) =
      some ⟨front.length, front.length + 2, "=>".toList, []⟩ := by
  have hlength : front.length + 1 + 1 - front.length = 2 := by omega
  simp [functionHead, choice, text, concat, matchAt?, matchThen, Cursor.between, Cursor.step?, hlength]

theorem skips_functionHead_iff : functionHead.Skips front s back ↔
    ∀ u v, s = u ++ v → v ≠ [] → ¬HeadAt (front ++ u) (v ++ back) := by
  have hnone (u v : Text) : functionHead.matchAt? (.between (front ++ u) (v ++ back)) = none ↔
      ¬HeadAt (front ++ u) (v ++ back) := by
    rw [← isSome_matchAt?_functionHead, Bool.not_eq_true, Option.isSome_eq_false_iff,
      Option.isNone_iff_eq_none]
  simp only [Skips, hnone]

/-- No head begins in a text without the first characters of an arrow and of the keyword. -/
theorem skips_functionHead (harrow : '=' ∉ s) (hname : 'f' ∉ s) (front back : Text) :
    functionHead.Skips front s back := by
  refine skips_functionHead_iff.2 fun u v hs hne hhead => ?_
  obtain ⟨a, v, rfl⟩ := List.exists_cons_of_ne_nil hne
  subst hs
  rcases hhead with ⟨r, hr⟩ | ⟨r, hr, -⟩
  · obtain rfl : '=' = a := (List.cons.inj hr).1
    simp at harrow
  · obtain rfl : a = 'f' := (List.cons.inj hr).1
    simp at hname

/-! Heads in the text of an arrow function. -/

theorem not_mem_of_allBlank {b : Text} {c : Char} (hb : allBlank b = true) (hc : isBlank c = false) :
    c ∉ b := by
  intro h
  rw [List.all_eq_true.1 hb c h] at hc
  cases hc

namespace ArrowFunction

theorem length_arrow (before : Text) :
    (before ++ (f.head ++ "=>".toList)).length = before.length + f.head.length + 2 := by
  simp only [List.length_append, Nat.add_assoc]
  rfl

theorem not_mem_lead {c : Char} (hc : isBlank c = false) (hname : c ∉ "async(".toList) : c ∉ f.lead := by
  have hleading := not_mem_of_allBlank (f.blank f.leading (by simp)) hc
  have hasync := not_mem_of_allBlank (f.blank (f.async.getD []) (by simp)) hc
  cases h : f.async <;> simp_all [lead]

theorem getLast?_lead : f.lead.getLast? = some '(' := by simp [lead]

/-- A head in the parameters is one that they hold. -/
theorem headAt_params_iff (before : Text) {u v : Text} :
    HeadAt (before ++ f.lead ++ u) (v ++ ')' :: (f.beforeArrow ++ ("=>".toList ++ f.tail))) ↔
      "=>".toList <+: v ∨ ∃ r, v = "function".toList ++ r ∧ u.getLast?.any isWord = false ∧
        r.head?.any isWord = false ∧ ('(' ∈ r ∨ '(' ∈ f.block) := by
  have hlast : (before ++ f.lead ++ u).getLast?.any isWord = u.getLast?.any isWord := by
    rw [List.getLast?_append, List.getLast?_append, getLast?_lead]
    cases u.getLast? <;> rfl
  have hopening (r : Text) : '(' ∈ r ++ ')' :: (f.beforeArrow ++ ("=>".toList ++ f.tail)) ↔
      '(' ∈ r ∨ '(' ∈ f.block := by
    have blank (b : Text) (hb : b ∈ [f.leading, f.async.getD [], f.beforeArrow, f.afterArrow, f.trailing]) :
        '(' ∉ b := not_mem_of_allBlank (f.blank b hb) (by decide)
    simp [tail, blank]
  rw [HeadAt]
  refine or_congr ?_ ⟨?_, ?_⟩
  · constructor
    · rintro ⟨r, h⟩
      obtain ⟨r', -, rfl⟩ := (append_eq_append_cons_iff (by decide)).1 h
      exact List.prefix_append _ _
    · rintro ⟨r, rfl⟩
      exact ⟨_, (List.append_assoc ..).symm⟩
  · rintro ⟨r, h, hu, hr, ho⟩
    obtain ⟨r', rfl, rfl⟩ := (append_eq_append_cons_iff (by decide)).1 h.symm
    refine ⟨r', rfl, hlast ▸ hu, ?_, (hopening r').1 ho⟩
    cases r' with
    | nil => rfl
    | cons a r' => exact hr
  · rintro ⟨r, rfl, hu, hr, ho⟩
    refine ⟨_, List.append_assoc .., hlast.trans hu, ?_, (hopening r).2 ho⟩
    cases r with
    | nil => rfl
    | cons a r => exact hr

theorem holdsHead_iff (before : Text) : f.HoldsHead ↔ ∃ u v, f.params = u ++ v ∧ v ≠ [] ∧
    HeadAt (before ++ f.lead ++ u) (v ++ ')' :: (f.beforeArrow ++ ("=>".toList ++ f.tail))) := by
  simp only [headAt_params_iff]
  constructor
  · rintro (⟨u, w, h⟩ | ⟨u, r, h, hr⟩)
    · exact ⟨u, "=>".toList ++ w, by rw [← h, List.append_assoc], by simp, .inl (List.prefix_append _ _)⟩
    · exact ⟨u, _, h, by simp, .inr ⟨r, rfl, hr⟩⟩
  · rintro ⟨u, v, h, -, ⟨w, rfl⟩ | ⟨r, rfl, hr⟩⟩
    · exact .inl ⟨u, w, by rw [h, List.append_assoc]⟩
    · exact .inr ⟨u, r, h, hr⟩

/-- There is no head before the arrow exactly if the parameters hold none. -/
theorem skips_head_iff (before : Text) :
    functionHead.Skips before f.head ("=>".toList ++ f.tail) ↔ ¬f.HoldsHead := by
  have hlead : ∀ back, functionHead.Skips before f.lead back :=
    skips_functionHead (f.not_mem_lead (by decide) (by decide)) (f.not_mem_lead (by decide) (by decide))
      before
  have hend : ∀ front back, functionHead.Skips front (')' :: f.beforeArrow) back := by
    have hblank : allBlank f.beforeArrow = true := f.blank _ (by simp)
    have harrow : '=' ∉ f.beforeArrow := not_mem_of_allBlank hblank (by decide)
    have hname : 'f' ∉ f.beforeArrow := not_mem_of_allBlank hblank (by decide)
    exact skips_functionHead (by simp [harrow]) (by simp [hname])
  rw [head, skips_append_iff, skips_append_iff, and_iff_right (hlead _), and_iff_left (hend _ _),
    skips_functionHead_iff, f.holdsHead_iff before]
  simp only [not_exists, not_and]
  rfl

end ArrowFunction

/-! Where the body has to begin, and the body. -/

theorem cursorAt_append (front back : Text) : cursorAt (front ++ back) front.length = .between front back :=
  Cursor.advance_between [] front back

theorem getLast?_take_of_closeOfCall? {opened close : Nat} (h : closeOfCall? t opened = some close) :
    (t.take close).getLast? = some ')' := by
  obtain ⟨inner, hslice, -⟩ := isBlock_of_closeOfCall? h
  have hle := add_two_le_of_closeOfCall? h
  have hclose : close = opened + (close - opened) := by omega
  rw [hclose, List.take_add]
  change (t.take opened ++ (⟨opened, close⟩ : Span).slice t).getLast? = _
  rw [hslice, ← List.cons_append, ← List.append_assoc, List.getLast?_concat]
  rfl

/-- Where the body has to begin and no parenthesis closes, an arrow has been found. -/
theorem exists_arrow_of_bodyStart? {start : Nat} (h : bodyStart? t span = some start)
    (hlast : (t.take start).getLast? ≠ some ')') :
    ∃ m, functionHead.search? (cursorAt (t.take span.stop) span.start) = some m ∧
      m.text = "=>".toList ∧ m.stop = start := by
  unfold bodyStart? at h
  split at h
  · cases h
  · rename_i m hm
    split at h
    · rename_i harrow
      exact ⟨m, hm, harrow, Option.some.inj h⟩
    · exact absurd (getLast?_take_of_closeOfCall? h) hlast

/-- The body of an arrow function is looked for behind its own arrow exactly if its parameters hold no
head. -/
theorem bodyStart?_arrow_iff (f : ArrowFunction) (before after : Text) :
    bodyStart? (before ++ (f.text ++ after)) ⟨before.length, before.length + f.text.length⟩ =
      some (before.length + f.head.length + 2) ↔ ¬f.HoldsHead := by
  have hcursor : cursorAt ((before ++ (f.text ++ after)).take (before.length + f.text.length))
      before.length = .between before f.text := by
    rw [← List.append_assoc, ← List.length_append, List.take_left, cursorAt_append]
  rw [← f.skips_head_iff before]
  constructor
  · intro h
    have hsplit : before ++ (f.text ++ after) =
        (before ++ (f.head ++ "=>".toList)) ++ (f.tail ++ after) := by
      simp [ArrowFunction.text]
    have hlast : ((before ++ (f.text ++ after)).take (before.length + f.head.length + 2)).getLast? ≠
        some ')' := by
      rw [hsplit, ← f.length_arrow, List.take_left]
      simp
    obtain ⟨m, hm, harrow, hstop⟩ := exists_arrow_of_bodyStart? h hlast
    rw [hcursor] at hm
    obtain ⟨s, back, htext, hm, hskip⟩ := search?_between_eq_some_iff.1 hm
    obtain ⟨-, -, hstart, -, -, hlength⟩ := takes_of_matchAt? hm
    -- The arrow that is found ends where the own one does, so it is the own one.
    have hs : f.head.length = s.length := by
      have hstart : m.start = (before ++ s).length := hstart
      have htwo : "=>".toList.length = 2 := rfl
      rw [harrow, hstart, List.length_append] at hlength
      omega
    obtain ⟨rfl, rfl⟩ := List.append_inj htext hs
    exact hskip
  · intro hskip
    have hsearch : functionHead.search? (.between before f.text) = some
        ⟨(before ++ f.head).length, (before ++ f.head).length + 2, "=>".toList, []⟩ :=
      search?_between_eq_some_iff.2 ⟨f.head, "=>".toList ++ f.tail, rfl,
        matchAt?_functionHead_arrow _ _, hskip⟩
    rw [bodyStart?, hcursor, hsearch]
    simp

/-- A block within the span that stands where the body has to begin is the body. -/
theorem functionBody_of_bodyStart? {b : Text} (hb : allBlank b = true) (hblock : IsBlock .braces block)
    (h : bodyStart? t span = some front.length)
    (ht : t = front ++ (b ++ (block ++ back)) ++ after)
    (hspan : span.stop = (front ++ (b ++ (block ++ back))).length) : functionBody t span = block := by
  have hblank : ∀ a ∈ b, isBlank a = true := List.all_eq_true.1 hb
  have hopening : isBlank '{' = false := by decide
  have hsplit : t = front ++ b ++ (block ++ (back ++ after)) := by rw [ht]; simp
  obtain ⟨r, hr⟩ : ∃ r, block = '{' :: r := by
    obtain ⟨inner, rfl, -⟩ := hblock
    exact ⟨_, rfl⟩
  have htail : (t.take span.stop).drop front.length = b ++ (block ++ back) := by
    rw [ht, hspan, List.take_left, List.drop_left]
  have hbefore : (b ++ (block ++ back)).takeWhile isBlank = b := by
    rw [List.takeWhile_append_of_pos hblank, hr]
    simp [hopening]
  have hbehind : (b ++ (block ++ back)).dropWhile isBlank = '{' :: (r ++ back) := by
    rw [List.dropWhile_append_of_pos hblank, hr]
    simp [hopening]
  have hfind : findBlock? .braces t (front ++ b).length =
      some ⟨(front ++ b).length, (front ++ b).length + block.length⟩ := by
    rw [hsplit]
    refine (findBlock?_append_eq_some_iff distinct_braces).2 ⟨[], block, back ++ after, rfl, by simp, hblock, ?_⟩
    rw [List.append_nil]
  have hslice : (⟨(front ++ b).length, (front ++ b).length + block.length⟩ : Span).slice t = block := by
    rw [hsplit, slice_between]
  have hstop : (front ++ b).length + block.length ≤ span.stop := by
    simp only [hspan, List.length_append]
    omega
  rw [List.length_append] at hfind hslice hstop
  unfold functionBody
  simp only [h, htail, hbefore, hbehind, hfind, if_pos hstop, hslice]

/-- The body of an arrow function is looked for behind its own arrow exactly if its parameters hold no
head, and then it is its block. -/
theorem functionBodyIn_arrow (f : ArrowFunction) (before after : Text) :
    let t := before ++ (f.text ++ after)
    let span : Span := ⟨before.length, before.length + f.text.length⟩
    (bodyStart? t span = some (before.length + f.head.length + 2) ↔ ¬f.HoldsHead) ∧
      (¬f.HoldsHead → functionBodyIn t span = .ok f.block) := by
  intro t span
  have hstart := bodyStart?_arrow_iff f before after
  refine ⟨hstart, fun hholds => ?_⟩
  have htext : before ++ f.text = before ++ (f.head ++ "=>".toList) ++ f.tail := by
    simp [ArrowFunction.text]
  have hstop : span.stop = (before ++ f.text).length := List.length_append.symm
  have hle : span.stop ≤ t.length := by
    rw [hstop, List.length_append, List.length_append, List.length_append]
    omega
  have ht : t = before ++ f.text ++ after := (List.append_assoc ..).symm
  rw [functionBodyIn_of_le hle, functionBody_of_bodyStart? (f.blank f.afterArrow (by simp)) f.isBlock
    ((hstart.2 hholds).trans (congrArg some (f.length_arrow before).symm)) (htext ▸ ht) (htext ▸ hstop)]

/-- Brackets in the parameters make no difference. -/
theorem functionBodyIn_async_arrow : ∃ f : ArrowFunction,
    f.text = "async (req, { page = first(1) }) => { res.send(page); }".toList ∧ ¬f.HoldsHead ∧
      functionBodyIn ("on(".toList ++ (f.text ++ ");".toList)) ⟨3, 3 + f.text.length⟩ =
        .ok "{ res.send(page); }".toList := by
  let f : ArrowFunction :=
    { leading := [], async := some [' '], params := "req, { page = first(1) }".toList, beforeArrow := [' '],
      afterArrow := [' '], block := "{ res.send(page); }".toList, trailing := [],
      blank := by decide
      nested := (nested_iff (by decide)).2 (by decide)
      isBlock := ⟨" res.send(page); ".toList, by decide, (nested_iff (by decide)).2 (by decide)⟩ }
  have hholds : ¬f.HoldsHead := by
    rintro (h | ⟨u, v, h, -⟩)
    · exact absurd h (by decide +kernel)
    · have hname : "function".toList <:+: "req, { page = first(1) }".toList :=
        ⟨u, v, (List.append_assoc ..).trans h.symm⟩
      exact absurd hname (by decide +kernel)
  exact ⟨f, by decide +kernel, hholds, (functionBodyIn_arrow f "on(".toList ");".toList).2 hholds⟩

/-- The arrow of a default value is taken for the one of the function. -/
theorem functionBodyIn_arrow_in_params : ¬∀ (f : ArrowFunction) (before after : Text),
    functionBodyIn (before ++ (f.text ++ after)) ⟨before.length, before.length + f.text.length⟩ =
      .ok f.block := by
  intro h
  have hbody := h
    { leading := [], async := none, params := "done = () => 1".toList, beforeArrow := [' '],
      afterArrow := [' '], block := "{ return done(); }".toList, trailing := [],
      blank := by decide
      nested := (nested_iff (by decide)).2 (by decide)
      isBlock := ⟨" return done(); ".toList, by decide, (nested_iff (by decide)).2 (by decide)⟩ } [] []
  exact absurd hbody (by decide +kernel)

end BackendMigration.Source
