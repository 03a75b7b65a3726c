import BackendMigration.Proofs.Adaptation.Whole
import BackendMigration.Proofs.Source.Parts

/-! Calls in the arguments of a call that is converted, and in what is put in its place. -/
namespace BackendMigration.Adaptation

open Source Text Pattern

/-- A text holds a call that an action converts. -/
def Action.Holds (action : Action) (t : Text) : Prop :=
  ∃ front call rest new, t = front ++ (call ++ rest) ∧ action.CallAt front call rest ∧
    action.Converts call new

/-- What an action puts before and after the arguments of a call; none if it does not put them in a row. -/
def Action.frame? : Action → Option (Text × Text)
  | document => some (".select().eq('id', ".toList, ").single()".toList)
  | response method => some (payloadFront method, payloadBack method)
  | substitute _ _ | filter | statusResponse _ => none

/-- The pattern finds names of calls whatever signs are around them, and no comma and no closing parenthesis
in one. -/
structure FindsName (p : Pattern) : Prop extends FindsCall p where
  overlooks_sign : ∀ a, isWord a = false → p.overlooks a = true
  comma : p.allows ',' = false
  closing : p.allows ')' = false
  solid : ∀ {c m}, p.matchAt? c = some m → m.text.head?.any isBlank = false

variable {p : Pattern} {m : Match} {front front' back call rest name inner t u new old : Text}
  {method : ResponseMethod}

theorem not_mem_of_allows {a : Char} (h : p.allows a = false) {c : Cursor} (hm : p.matchAt? c = some m) :
    a ∉ m.text := by
  intro ha
  rw [allows_of_mem_matchAt? hm a ha] at h
  cases h

theorem findsName_documentCall : FindsName documentCall where
  toFindsCall := findsCall_of_mem (by simp)
  overlooks_sign _ _ := rfl
  comma := by decide
  closing := by decide
  solid hm := by
    obtain ⟨_, _, hname, -, htext⟩ := spells_of_matchAt? hm
    rw [htext, spells_text.1 hname]
    rfl

theorem findsName_filterCall : FindsName filterCall where
  toFindsCall := findsCall_of_mem (by simp)
  overlooks_sign _ _ := rfl
  comma := by decide
  closing := by decide
  solid hm := by
    obtain ⟨_, _, hname, -, htext⟩ := spells_of_matchAt? hm
    rw [htext, spells_text.1 hname]
    rfl

theorem findsName_responseCall : FindsName responseCall where
  toFindsCall := findsCall_of_mem (by simp)
  overlooks_sign a ha := by
    simp [responseCall, responseObject, overlooks, ha, concat, text, Pattern.optional, someBlanks, point,
      opening, blanks, repeated, anyMethod, choice]
  comma := by decide
  closing := by decide
  solid {c m} hm := by
    obtain ⟨_, _, _, -, hname, hhead, -⟩ := exists_of_match hm
    obtain ⟨c', -, hr, -⟩ := rest_eq_of_text hm rfl
    have hne : m.text ≠ [] := by simp [hname]
    rw [hr, List.head?_append_of_ne_nil _ hne] at hhead
    rw [hhead]
    decide

theorem FindsName.closing_not_mem (hp : FindsName p) {c : Cursor} (hm : p.matchAt? c = some m)
    (hname : m.text = name ++ ['(']) : ')' ∉ name := by
  intro h
  exact not_mem_of_allows hp.closing hm (hname ▸ List.mem_append_left _ h)

/-! Moving calls. -/

/-- Behind a sign a name is found. -/
theorem FindsName.overlooks_concat (hp : FindsName p) (front : Text) {a : Char} (ha : isWord a = false) :
    Overlooks p (front ++ [a]) := by
  intro b hb
  obtain rfl : a = b := by simpa using hb
  exact hp.overlooks_sign a ha

theorem FindsName.overlooks_blank (hp : FindsName p) (hw : allBlank u = true) : Overlooks p u := by
  intro a ha
  exact hp.overlooks_sign a
    (isWord_eq_false_of_isBlank (List.all_eq_true.1 hw a (List.mem_of_getLast? ha)))

theorem ClosedCall.overlooks (hp : FindsCall p) (h : ClosedCall p front call rest) : Overlooks p front := by
  obtain ⟨m, name, inner, hm, -, -, -⟩ := h
  exact hp.overlooks hm

/-- A call is one also elsewhere. -/
theorem ClosedCall.move (hp : FindsCall p) (h : ClosedCall p front call rest) (hf : Overlooks p front')
    (rest' : Text) : ClosedCall p front' call rest' := by
  obtain ⟨m, name, inner, hm, hname, rfl, hi⟩ := h
  obtain ⟨m', hm', hname'⟩ := hp.move_call hm hname hf rest'
  exact ⟨m', name, inner, hm', hname', rfl, hi⟩

theorem ClosedCall.ends (hp : FindsName p) (h : ClosedCall p front call rest) :
    call ≠ [] ∧ call.head?.any isBlank = false ∧ call.getLast?.any isBlank = false := by
  obtain ⟨m, name, inner, hm, hname, rfl, -⟩ := h
  have hhead : (callText name inner).head? = m.text.head? := by
    rw [hname, callText]
    cases name <;> rfl
  refine ⟨ne_nil_of_callText name inner, by rw [hhead]; exact hp.solid hm, ?_⟩
  rw [getLast?_callText]
  decide

/-- What a call is converted to by itself. -/
theorem callEdit_start_iff {convert : List Text → Match → Option Text} (hl : 0 < p.minLength) :
    callEdit p convert (.start call) = some (.replace call.length new) ↔
      ∃ m name inner, p.matchAt? (.start call) = some m ∧ m.text = name ++ ['('] ∧
        call = callText name inner ∧ Nested .parentheses inner ∧
        convert (argumentTexts inner) m = some new := by
  change callEdit p convert (.between [] call) = _ ↔ _
  rw [callEdit_eq_replace_iff hl]
  constructor
  · rintro ⟨m, name, inner, rest, hm, hname, hcall, hi, hnew, hlength⟩
    obtain rfl : rest = [] := by
      have := congrArg List.length hcall
      rw [List.length_append] at this
      exact List.length_eq_zero_iff.1 (by omega)
    rw [List.append_nil] at hcall
    exact ⟨m, name, inner, hm, hname, hcall, hi, hnew⟩
  · rintro ⟨m, name, inner, hm, hname, rfl, hi, hnew⟩
    exact ⟨m, name, inner, [], hm, hname, (List.append_nil _).symm, hi, hnew, rfl⟩

theorem convertDocument_eq_some_iff {arguments : List Text} :
    convertDocument arguments m = some new ↔ ∃ id, arguments = [id] ∧ id ≠ [] ∧
      new = ".select().eq('id', ".toList ++ id ++ ").single()".toList := by
  unfold convertDocument
  split
  · rename_i id
    cases id with
    | nil => simp
    | cons c r => simp [eq_comm]
  · rename_i hno
    constructor
    · intro h
      cases h
    · rintro ⟨id, rfl, -⟩
      exact absurd rfl (hno id)

theorem convertResponse_eq_some_iff {arguments : List Text} :
    convertResponse method arguments m = some new ↔
      m.part? "method" = some method.name.toList ∧ new = answer method (join ", ".toList arguments) := by
  unfold convertResponse
  split
  · rename_i h
    simp [h, eq_comm]
  · rename_i h
    simp [h]

/-! What is put in place of a call. -/

variable {action : Action} {before after : Text}

/-- The arguments of a converted call as they stand in what is put in its place. -/
def row (inner : Text) : Text := join ", ".toList (argumentTexts inner)

theorem exists_of_frame (h : action.frame? = some (before, after)) (hc : action.Converts old new) :
    ∃ name inner, '(' ∉ name ∧ ')' ∉ name ∧ Nested .parentheses inner ∧ old = callText name inner ∧
      new = before ++ (row inner ++ after) := by
  cases action with
  | document =>
    cases h
    obtain ⟨m, name, inner, hm, hname, rfl, hi, hnew⟩ := (callEdit_start_iff (by decide)).1 hc
    obtain ⟨id, hid, -, rfl⟩ := convertDocument_eq_some_iff.1 hnew
    refine ⟨name, inner, findsName_documentCall.not_mem hm hname,
      findsName_documentCall.closing_not_mem hm hname, hi, rfl, ?_⟩
    rw [row, hid, List.append_assoc]
    rfl
  | response method =>
    cases h
    obtain ⟨m, name, inner, hm, hname, rfl, hi, hnew⟩ := (callEdit_start_iff (by decide)).1 hc
    obtain ⟨-, rfl⟩ := convertResponse_eq_some_iff.1 hnew
    refine ⟨name, inner, findsName_responseCall.not_mem hm hname,
      findsName_responseCall.closing_not_mem hm hname, hi, rfl, ?_⟩
    rw [answer_eq, List.append_assoc]
    rfl
  | _ => cases h

theorem brackets_row (inner : Text) : brackets (row inner) = brackets inner := by
  have hcomma : brackets ", ".toList = [] := by decide
  rw [row, brackets_join hcomma, brackets_argumentTexts]

theorem nested_row (h : Nested .parentheses inner) : Nested .parentheses (row inner) :=
  h.of_brackets_eq (by decide) (brackets_row inner)

/-! Names in a text, of calls that answer. -/

/-- A name that a pattern finds in a text. -/
def Named (p : Pattern) (name t : Text) : Prop :=
  ∃ front back m, t = front ++ (name ++ back) ∧ p.matchAt? (.between front (name ++ back)) = some m ∧
    m.text = name

theorem Named.embed (hp : FindsCall p) (h : Named p name t) (hf : Overlooks p front) (back : Text) :
    Named p name (front ++ (t ++ back)) := by
  obtain ⟨f, b, m, rfl, hm, hname⟩ := h
  obtain ⟨m', hm', hname'⟩ := hp.move hm hname (hf.append (hp.overlooks hm)) (b ++ back)
  exact ⟨front ++ f, b ++ back, m', by simp only [List.append_assoc], hm', hname'⟩

/-- A name in two texts with a comma between them is in one of them. -/
theorem named_append_iff (hp : FindsName p) {w : Text} (hw : allBlank w = true) :
    Named p name (t ++ ',' :: (w ++ u)) ↔ Named p name t ∨ Named p name u := by
  constructor
  · rintro ⟨f, b, m, h, hm, rfl⟩
    have hne : m.text ≠ [] := by
      obtain ⟨_, htext, -⟩ := hp.opens hm
      simp [htext]
    rcases stretch_beside (not_mem_of_allows hp.comma hm) hne h.symm with ⟨b', -, ht⟩ | ⟨f', hf, ht⟩
    · obtain ⟨m', hm', htext⟩ := hp.move hm rfl (hp.overlooks hm) b'
      exact .inl ⟨f, b', m', ht, hm', htext⟩
    · obtain ⟨f'', hf'', ht⟩ := stretch_after_blank hw (hp.solid hm) hne ht.symm
      have hfront : Overlooks p f'' := by
        have hover := hp.overlooks hm
        rw [hf, hf'', ← List.singleton_append, ← List.append_assoc, ← List.append_assoc] at hover
        exact hover.of_append
      obtain ⟨m', hm', htext⟩ := hp.move hm rfl hfront b
      exact .inr ⟨f'', b, m', ht, hm', htext⟩
  · rintro (h | h)
    · have := h.embed hp.toFindsCall (overlooks_nil p) (',' :: (w ++ u))
      exact this
    · have hfront : Overlooks p (t ++ [','] ++ w) :=
        (hp.overlooks_concat t (by decide)).append (hp.overlooks_blank hw)
      have := h.embed hp.toFindsCall hfront []
      simpa using this

theorem named_strip_iff (hp : FindsName p) : Named p name (strip t) ↔ Named p name t := by
  obtain ⟨w, w', ht, hw, hw'⟩ := exists_strip t
  constructor
  · intro h
    have := h.embed hp.toFindsCall (hp.overlooks_blank hw) w'
    rwa [← ht] at this
  · rintro ⟨f, b, m, h, hm, rfl⟩
    obtain ⟨_, hopens, -⟩ := hp.opens hm
    have hne : m.text ≠ [] := by simp [hopens]
    have hlast : m.text.getLast?.any isBlank = false := by
      rw [hopens, List.getLast?_concat]
      decide
    obtain ⟨f', hf, h'⟩ := stretch_after_blank hw (hp.solid hm) hne (h.symm.trans ht)
    obtain ⟨b', -, h''⟩ := stretch_before_blank hw' hlast hne h'.symm
    have hfront : Overlooks p f' := by
      have hover := hp.overlooks hm
      rw [hf] at hover
      exact hover.of_append
    obtain ⟨m', hm', htext⟩ := hp.move hm rfl hfront b'
    exact ⟨f', b', m', h'', hm', htext⟩

theorem named_join_iff (hp : FindsName p) {w : Text} (hw : allBlank w = true) {ts : List Text} :
    Named p name (join (',' :: w) ts) ↔ ∃ t ∈ ts, Named p name t := by
  induction ts with
  | nil =>
    simp only [join, List.not_mem_nil, false_and, exists_false, iff_false]
    rintro ⟨f, b, m, h, hm, rfl⟩
    obtain ⟨_, hopens, -⟩ := hp.opens hm
    simp [hopens] at h
  | cons t ts ih =>
    cases ts with
    | nil => simp [join]
    | cons u ts =>
      have hjoin : join (',' :: w) (t :: u :: ts) = t ++ ',' :: (w ++ join (',' :: w) (u :: ts)) := by
        simp [join]
      rw [hjoin, named_append_iff hp hw, ih]
      simp

/-- The same names are in the arguments and in the row of them. -/
theorem named_row_iff (hp : FindsName p) : Named p name (row inner) ↔ Named p name inner := by
  have hblank : allBlank [' '] = true := by decide
  have hrow : row inner = join (',' :: [' ']) ((Reader.start.parts inner).map strip) :=
    join_argumentTexts _ _
  have hinner := @named_join_iff p name hp [] rfl (Reader.start.parts inner)
  rw [Reader.join_parts] at hinner
  rw [hrow, named_join_iff hp hblank, hinner]
  simp only [List.mem_map, exists_exists_and_eq_and, named_strip_iff hp]

theorem Calls.eq_of_part {c : Cursor} (hm : responseCall.matchAt? c = some m) :
    m.part? "method" = some method.name.toList ↔ Calls method m.text := by
  have hm : (callOn responseObject anyMethod).matchAt? c = some m := hm
  obtain ⟨called, hpart, hcalls⟩ := exists_method rfl hm
  constructor
  · intro h
    rw [hpart] at h
    have : called = method := by
      revert h
      cases called <;> cases method <;> decide
    exact this ▸ hcalls
  · intro h
    rw [hpart, hcalls.unique h (List.suffix_refl _)]

/-- A nested text holds an answer as soon as it has the name of one. -/
theorem holds_response_iff (ht : Nested .parentheses t) :
    (Action.response method).Holds t ↔ ∃ name, Calls method name ∧ Named responseCall name t := by
  have hp := findsName_responseCall
  constructor
  · rintro ⟨front, _, rest, new, rfl, ⟨m, name, inner, hm, hname, rfl, hi⟩, hconverts⟩
    obtain ⟨m₀, name₀, inner₀, hm₀, hname₀, hcall, hi₀, hnew⟩ :=
      (callEdit_start_iff (by decide)).1 hconverts
    obtain ⟨rfl, -, -⟩ := callText_inj (hp.not_mem hm hname) (hp.not_mem hm₀ hname₀) hi hi₀
      (congrArg (· ++ []) hcall)
    have hcalls := (Calls.eq_of_part hm₀).1 (convertResponse_eq_some_iff.1 hnew).1
    rw [hname₀] at hcalls
    rw [callText_append] at hm ⊢
    exact ⟨_, hcalls, front, _, m, rfl, hm, hname⟩
  · rintro ⟨_, hcalls, front, back, m, rfl, hm, rfl⟩
    obtain ⟨name, hname, hno⟩ := hp.opens hm
    rw [hname, List.append_assoc, ← List.append_assoc] at ht
    obtain ⟨inner, rest, rfl, hi⟩ := exists_block_of_nested (by decide) ht
    rw [hname] at hm hcalls ⊢
    have hclosed : ClosedCall responseCall front (callText name inner) rest :=
      ⟨m, name, inner, by rwa [callText_append], hname, rfl, hi⟩
    obtain ⟨m', hm', hname'⟩ := hp.move hm hname (overlooks_nil responseCall) (inner ++ ')' :: [])
    refine ⟨front, callText name inner, rest, _, by rw [callText_append]; rfl, hclosed,
      (callEdit_start_iff (by decide)).2 ⟨m', name, inner, ?_, hname', rfl, hi,
        convertResponse_eq_some_iff.2 ⟨?_, rfl⟩⟩⟩
    · rw [← callText_append, List.append_nil] at hm'
      exact hm'
    · rw [Calls.eq_of_part hm', hname']
      exact hcalls

/-! Calls in the arguments. -/

/-- The pattern of an action that puts the arguments in a row. -/
theorem exists_of_frame? (h : action.frame? = some (before, after)) :
    ∃ p, FindsName p ∧ action.callPattern? = some p ∧ action.CallAt = ClosedCall p := by
  cases action with
  | document => exact ⟨_, findsName_documentCall, rfl, rfl⟩
  | response => exact ⟨_, findsName_responseCall, rfl, rfl⟩
  | _ => cases h

theorem Action.Holds.embed (hp : FindsName p) (hcall : action.CallAt = ClosedCall p) (h : action.Holds t)
    (hf : Overlooks p front) (back : Text) : action.Holds (front ++ (t ++ back)) := by
  obtain ⟨f, call, rest, new, rfl, hclosed, hnew⟩ := h
  rw [hcall] at hclosed
  refine ⟨front ++ f, call, rest ++ back, new, by simp only [List.append_assoc], ?_, hnew⟩
  rw [hcall]
  exact hclosed.move hp.toFindsCall (hf.append (hclosed.overlooks hp.toFindsCall)) _

theorem holds_strip_iff (hp : FindsName p) (hcall : action.CallAt = ClosedCall p) :
    action.Holds (strip t) ↔ action.Holds t := by
  obtain ⟨w, w', ht, hw, hw'⟩ := exists_strip t
  constructor
  · intro h
    have := h.embed hp hcall (hp.overlooks_blank hw) w'
    rwa [← ht] at this
  · rintro ⟨f, call, rest, new, h, hclosed, hnew⟩
    rw [hcall] at hclosed
    obtain ⟨hne, hhead, hlast⟩ := hclosed.ends hp
    obtain ⟨f', rfl, h'⟩ := stretch_after_blank hw hhead hne (h.symm.trans ht)
    obtain ⟨b', -, h''⟩ := stretch_before_blank hw' hlast hne h'.symm
    refine ⟨f', call, b', new, h'', ?_, hnew⟩
    rw [hcall]
    exact hclosed.move hp.toFindsCall (hclosed.overlooks hp.toFindsCall).of_append b'

/-- The row of the arguments holds a call that the action converts exactly if the arguments do. -/
theorem holds_row_iff (h : action.frame? = some (before, after)) (hname : '(' ∉ name)
    (hi : Nested .parentheses inner) (hc : action.Converts (callText name inner) new) :
    action.Holds (row inner) ↔ action.Holds inner := by
  cases action with
  | document =>
    obtain ⟨m, name', inner', hm, hname', hcall, hi', hnew⟩ := (callEdit_start_iff (by decide)).1 hc
    obtain ⟨-, rfl, -⟩ := callText_inj hname (findsName_documentCall.not_mem hm hname') hi hi'
      (congrArg (· ++ []) hcall)
    obtain ⟨id, hid, hne, -⟩ := convertDocument_eq_some_iff.1 hnew
    have hrow : row inner = strip inner := by
      rw [row, hid, ((argumentTexts_eq_singleton_iff hne).1 hid).2]
      rfl
    rw [hrow, holds_strip_iff findsName_documentCall rfl]
  | response method =>
    simp only [holds_response_iff (nested_row hi), holds_response_iff hi,
      named_row_iff findsName_responseCall]
  | _ => cases h

/-- What an action puts around a row of arguments is part of no name. -/
theorem frame_avoids (h : action.frame? = some (before, after)) (hp : action.callPattern? = some p) :
    p.avoids before = true ∧ p.avoids after = true ∧ (∃ r, after = ')' :: r) ∧
      ∃ r a, before = r ++ [a] ∧ isWord a = false := by
  cases action with
  | document =>
    cases h
    cases hp
    exact ⟨by decide, by decide, ⟨_, rfl⟩, ".select().eq('id',".toList, ' ', rfl, by decide⟩
  | response method =>
    cases h
    cases hp
    cases method
    · exact ⟨by decide, by decide, ⟨_, rfl⟩,
        "return new Response(JSON.stringify".toList, '(', rfl, by decide⟩
    · exact ⟨by decide, by decide, ⟨_, rfl⟩, "return new Response".toList, '(', rfl, by decide⟩
  | _ => cases h

/-- No name begins in a text that the pattern avoids. -/
theorem ne_of_avoids {back f r : Text} {n : Nat} (hm : p.matchAt? (.between front back) = some m)
    (hf : p.avoids f = true) (hn : n < f.length) : back ≠ f.drop n ++ r := by
  intro hback
  obtain ⟨_, htakes, -, -⟩ := rest_eq_of_text hm rfl
  have := (htakes.passes hback fun _ _ => rfl).1
  rw [← mayBegin, mayBegin_drop_of_avoids hf hn] at this
  cases this

/-- A name that begins in a text with others around it, which the pattern avoids, begins in the text
itself. -/
theorem exists_of_surrounded {x y z : Text} (hm : p.matchAt? (.between front (y ++ z)) = some m)
    (hbefore : p.avoids before = true) (hafter : p.avoids after = true)
    (hxy : before ++ (t ++ after) = x ++ y) (hy : y ≠ []) :
    ∃ u v, x = before ++ u ∧ t = u ++ v ∧ y = v ++ after := by
  obtain ⟨u, rfl, hu⟩ : ∃ u, x = before ++ u ∧ t ++ after = u ++ y := by
    rcases List.append_eq_append_iff.1 hxy with ⟨u, hx, hu⟩ | ⟨w, hw, hy'⟩
    · exact ⟨u, hx, hu⟩
    · rcases eq_or_ne w [] with rfl | hne
      · exact ⟨[], by rw [hw, List.append_nil, List.append_nil], hy'.symm⟩
      · have hn : x.length < before.length := by
          have := List.length_pos_iff.2 hne
          rw [hw, List.length_append]
          omega
        refine absurd ?_ (ne_of_avoids (r := t ++ after ++ z) hm hbefore hn)
        rw [hy', hw, List.drop_left, List.append_assoc, List.append_assoc]
  rcases List.append_eq_append_iff.1 hu with ⟨w, rfl, hy'⟩ | ⟨v, ht, hy'⟩
  · have hn : w.length < after.length := by
      have := List.length_pos_iff.2 hy
      rw [hy', List.length_append]
      omega
    refine absurd ?_ (ne_of_avoids (r := z) hm hafter hn)
    rw [hy', List.drop_left]
  · exact ⟨u, v, rfl, ht, hy'⟩

/-- A call that begins in what is put in place of a call lies in the row of the arguments. -/
theorem closedCall_row (hp : FindsName p) {x y z : Text} (hi : Nested .parentheses t)
    (hbefore : p.avoids before = true) (hafter : p.avoids after = true) (hclosing : ∃ r, after = ')' :: r)
    (hxy : before ++ (t ++ after) = x ++ y) (hy : y ≠ []) (hyz : call ++ rest = y ++ z)
    (h : ClosedCall p (front ++ x) call rest) : ∃ u r, t = u ++ (call ++ r) ∧ ClosedCall p u call r := by
  have hfront := h.overlooks hp.toFindsCall
  have hmoved (u r : Text) (hu : Overlooks p u) := h.move hp.toFindsCall hu r
  obtain ⟨m, name, inner, hm, hname, rfl, hinner⟩ := h
  obtain ⟨u, v, rfl, rfl, rfl⟩ := exists_of_surrounded (hyz ▸ hm) hbefore hafter hxy hy
  obtain ⟨c', -, hr, -⟩ := rest_eq_of_text hm rfl
  have hrest : callText name inner ++ rest = m.text ++ c'.rest := hr
  obtain ⟨r, rfl⟩ := hclosing
  have hne : m.text ≠ [] := by simp [hname]
  have hsplit : [] ++ (m.text ++ c'.rest) = v ++ ')' :: (r ++ z) := by
    rw [List.nil_append, ← hrest, hyz, List.append_assoc]
    rfl
  -- The name ends before what stands around the row, and so does the call, as the row is nested.
  rcases stretch_beside (not_mem_of_allows hp.closing hm) hne hsplit with ⟨w, hw, rfl⟩ | ⟨w, hw, -⟩
  · rw [List.nil_append, hname, List.append_assoc, ← List.append_assoc] at hi
    obtain ⟨inner', rest', rfl, hinner'⟩ := exists_block_of_nested (by decide) hi
    have hcall : callText name inner ++ rest = callText name inner' ++ (rest' ++ ')' :: (r ++ z)) := by
      rw [hrest, hw, hname, callText_append]
      simp [Delimiters.parentheses]
    obtain ⟨-, rfl, -⟩ := callText_inj (hp.not_mem hm hname) (hp.not_mem hm hname) hinner hinner' hcall
    refine ⟨u, rest', ?_, hmoved u rest' hfront.of_append.of_append⟩
    rw [List.nil_append, hname, callText_append]
    rfl
  · exact absurd hw (by simp)

end BackendMigration.Adaptation
