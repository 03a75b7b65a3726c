import BackendMigration.Proofs.Adaptation.Inner
import BackendMigration.Proofs.Adaptation.Rewrites

/-! The calls that an action leaves, although it converts such calls elsewhere. -/
namespace BackendMigration.Adaptation

open Source Text Pattern

variable {action : Action} {p : Pattern} {m : Match} {segs s₁ s₂ : List Segment} {c : Char}
  {front call rest name inner inner' old new lead trail s t w : Text} {method : ResponseMethod}

/-! What is put in place of a call is no part of the name of another one. -/

/-- A text that ends with a letter does not end like one with another letter and white space behind it. -/
theorem append_blank_ne (hw : allBlank w = true) {a b : Char} (hb : isBlank b = false) (hne : a ≠ b) :
    s ++ [a] ++ w ≠ t ++ [b] := by
  intro h
  rcases List.eq_nil_or_concat w with rfl | ⟨w', d, rfl⟩
  · rw [List.append_nil] at h
    exact hne (List.singleton_inj.1 (List.append_inj' h rfl).2)
  · rw [List.concat_eq_append, ← List.append_assoc] at h
    obtain rfl := List.singleton_inj.1 (List.append_inj' h rfl).2
    rw [List.all_eq_true.1 hw d (by simp)] at hb
    cases hb

theorem text_of_documentCall {c : Cursor} (hm : documentCall.matchAt? c = some m) :
    ∃ b, allBlank b = true ∧ m.text = ".doc".toList ++ (b ++ ['(']) := by
  obtain ⟨_, _, hname, ⟨_, _, hopening, rfl, rfl⟩, htext⟩ := spells_of_matchAt? hm
  obtain ⟨b, hb, rfl⟩ := spells_opening.1 hopening
  exact ⟨b, hb, by rw [htext, spells_text.1 hname, List.append_nil]⟩

/-- What is put in place of a call opens its first parenthesis behind a name that no name found ends with. -/
theorem opening_of_frame (h : action.frame? = some (lead, trail)) (hp : action.callPattern? = some p) :
    ∃ head r, lead = head ++ '(' :: r ∧ '(' ∉ head ∧
      ∀ {c : Cursor} {m w}, p.matchAt? c = some m → m.text ≠ w ++ head ++ ['('] := by
  cases action with
  | document =>
    cases h
    cases hp
    refine ⟨".select".toList, ").eq('id', ".toList, rfl, by decide, fun {c m w} hm heq => ?_⟩
    obtain ⟨b, hb, htext⟩ := text_of_documentCall hm
    rw [htext, ← List.append_assoc] at heq
    exact append_blank_ne (s := ".do".toList) (t := w ++ ".selec".toList) hb (by decide) (by decide)
      ((List.append_cancel_right heq).trans (List.append_assoc w ".selec".toList ['t']).symm)
  | response method =>
    have hp : responseCall = p := Option.some.inj hp
    subst hp
    have hname {c : Cursor} {m : Match} {w : Text} (hm : responseCall.matchAt? c = some m) :
        m.text ≠ w ++ "return new Response".toList ++ ['('] := by
      intro heq
      have hm : (callOn responseObject anyMethod).matchAt? c = some m := hm
      obtain ⟨called, -, u, b, hb, htext⟩ := exists_method rfl hm
      rw [htext, ← List.append_assoc, ← List.append_assoc] at heq
      have heq := (List.append_cancel_right heq).trans
        (List.append_assoc w "return new Respons".toList ['e']).symm
      cases called with
      | json =>
        refine append_blank_ne (s := u ++ "jso".toList) (a := 'n') hb (by decide) (by decide) (Eq.trans ?_ heq)
        exact congrArg (· ++ b) (List.append_assoc u "jso".toList ['n'])
      | send =>
        refine append_blank_ne (s := u ++ "sen".toList) (a := 'd') hb (by decide) (by decide) (Eq.trans ?_ heq)
        exact congrArg (· ++ b) (List.append_assoc u "sen".toList ['d'])
    cases h
    cases method with
    | json => exact ⟨_, "JSON.stringify(".toList, rfl, by decide, hname⟩
    | send => exact ⟨_, [], rfl, by decide, hname⟩
  | _ => cases h

/-- The name of a call in an edited text is kept as it is, if it begins where a character is kept. -/
theorem exists_name_kept (h : action.frame? = some (lead, trail)) (hp : action.callPattern? = some p)
    (hfinds : FindsName p) (hsegs : ∀ old new, .replaced old new ∈ segs → action.Converts old new)
    {c : Cursor} (hm : p.matchAt? c = some m) (hname : m.text = name ++ ['('])
    (hafter : after segs = name ++ ['('] ++ rest) :
    ∃ segs', segs = (name ++ ['(']).map .kept ++ segs' ∧ after segs' = rest := by
  rcases exists_kept_of_prefix hafter with h' | ⟨w, old, new, segs', rfl, hw⟩
  · exact h'
  · obtain ⟨head, r, rfl, hhead, hno⟩ := opening_of_frame h hp
    obtain ⟨_, inner, -, -, -, -, rfl⟩ := exists_of_frame h (hsegs old new (by simp))
    rw [after_append, after_kept, after_cons] at hafter
    have hafter : w ++ (head ++ '(' :: r ++ (row inner ++ trail) ++ after segs') = name ++ ['('] ++ rest :=
      hafter
    obtain ⟨u, hu⟩ : w <+: name := by
      have hprefix := List.prefix_of_prefix_length_le ⟨_, hafter⟩ (List.prefix_append _ rest) (Nat.le_of_lt hw)
      rcases List.prefix_concat_iff.1 hprefix with heq | hprefix
      · rw [heq] at hw
        exact absurd hw (Nat.lt_irrefl _)
      · exact hprefix
    have hnot : '(' ∉ w ++ head := by
      intro hmem
      rcases List.mem_append.1 hmem with hmem | hmem
      · exact hfinds.not_mem hm hname (hu ▸ List.mem_append_left u hmem)
      · exact hhead hmem
    have hsame : name ++ '(' :: rest = w ++ head ++ '(' :: (r ++ (row inner ++ (trail ++ after segs'))) := by
      simpa using hafter.symm
    obtain ⟨rfl, -⟩ := append_opening_inj (hfinds.not_mem hm hname) hnot hsame
    exact absurd hname (hno hm)

/-! A call in an edited text and the call that it comes from. -/

theorem depthAfter?_of_not_mem {d : Delimiters} (ho : d.opening ∉ t) (hc : d.closing ∉ t) (depth : Nat) :
    depthAfter? d depth t = some depth := by
  induction t with
  | nil => rfl
  | cons a r ih =>
    obtain ⟨hao, ho⟩ := List.ne_and_not_mem_of_not_mem_cons ho
    obtain ⟨hac, hc⟩ := List.ne_and_not_mem_of_not_mem_cons hc
    simp only [depthAfter?, if_neg (Ne.symm hao), if_neg (Ne.symm hac), ih ho hc]

theorem nested_callText (ho : '(' ∉ name) (hc : ')' ∉ name) (hi : Nested .parentheses inner) :
    Nested .parentheses (callText name inner) := by
  have hd : Delimiters.parentheses.Distinct := by decide
  have hcall : depthAfter? .parentheses 0 ('(' :: (inner ++ [')'])) = some 0 := by
    change depthAfter? .parentheses 1 (inner ++ [')']) = some 0
    rw [depthAfter?_append, depthAfter?_of_nested hd hi]
    rfl
  rw [nested_iff hd, callText, depthAfter?_append, depthAfter?_of_not_mem ho hc, Option.bind_some, hcall]

theorem nested_of_frame (h : action.frame? = some (lead, trail)) (hc : action.Converts old new) :
    Nested .parentheses old ∧ Nested .parentheses new := by
  obtain ⟨name, inner, ho, hclosing, hi, rfl, -⟩ := exists_of_frame h hc
  have hold := nested_callText ho hclosing hi
  have hbalanced : action.Balanced := by
    cases action with
    | substitute => cases h
    | _ => trivial
  have hkeeps : KeepsBalance ((callText name inner).take ((callText name inner).length - 1 + 1)) new :=
    Action.edit_keepsBalance hbalanced _ _ _ hc
  rw [List.take_of_length_le (by omega)] at hkeeps
  exact ⟨hold, hkeeps.nested hold⟩

/-- What a name takes notice of is the same before and after the edits. -/
theorem overlooks_before (hp : FindsName p) (h : action.frame? = some (lead, trail))
    (hsegs : ∀ old new, .replaced old new ∈ segs → action.Converts old new)
    (hover : Overlooks p (after segs)) : Overlooks p (before segs) := by
  rcases List.eq_nil_or_concat segs with rfl | ⟨segs, segment, rfl⟩
  · exact overlooks_nil p
  · rw [List.concat_eq_append, after_append] at hover
    rw [List.concat_eq_append, before_append]
    cases segment with
    | kept c =>
      intro a ha
      have hkept : before [.kept c] = [c] := rfl
      rw [hkept, List.getLast?_concat] at ha
      exact hover.of_append a ha
    | replaced old new =>
      obtain ⟨name, inner, -, -, -, rfl, -⟩ := exists_of_frame h (hsegs old new (by simp))
      have hcall : before [.replaced (callText name inner) new] = name ++ '(' :: inner ++ [')'] := by
        simp [Segment.before, callText]
      rw [hcall, ← List.append_assoc]
      exact hp.overlooks_concat _ (by decide)

/-- The selection in place of a document opens one parenthesis, as the call of the document does. -/
theorem after_documentFront {s : Reader} (hs : s.Proper) :
    s.after ".select().eq('id', ".toList = s.step '(' := by
  obtain ⟨_ | q, depth⟩ := s
  · have hdepth : depth + 1 - 1 + 1 = depth + 1 := by omega
    exact congrArg (Reader.mk none) hdepth
  · have hq := hs q rfl
    simp only [isQuote, Bool.or_eq_true, beq_iff_eq] at hq
    rcases hq with (rfl | rfl) | rfl <;> rfl

theorem after_documentBack {s : Reader} (hs : s.Proper) : s.after ").single()".toList = s.after [')'] := by
  obtain ⟨_ | q, depth⟩ := s
  · have hdepth : depth - 1 + 1 - 1 = depth - 1 := by omega
    exact congrArg (Reader.mk none) hdepth
  · have hq := hs q rfl
    simp only [isQuote, Bool.or_eq_true, beq_iff_eq] at hq
    rcases hq with (rfl | rfl) | rfl <;> rfl

theorem covers_document (hc : Action.document.Converts old new) : Reader.Covers old new := by
  obtain ⟨m, name, inner, hm, hname, rfl, hi, hnew⟩ := (callEdit_start_iff (by decide)).1 hc
  obtain ⟨id, hid, hne, rfl⟩ := convertDocument_eq_some_iff.1 hnew
  obtain ⟨-, rfl⟩ := (argumentTexts_eq_singleton_iff hne).1 hid
  obtain ⟨b, hb, htext⟩ := text_of_documentCall hm
  have hfront : Reader.Covers (".doc".toList ++ (b ++ ['('])) ".select().eq('id', ".toList := by
    refine Reader.covers_of_not_mem (fun hcomma => ?_) fun s hs => ?_
    · rcases List.mem_append.1 hcomma with hcomma | hcomma
      · exact absurd hcomma (by decide)
      · rcases List.mem_append.1 hcomma with hcomma | hcomma
        · exact absurd (List.all_eq_true.1 hb _ hcomma) (by decide)
        · exact absurd hcomma (by decide)
    · have hopening : s.after (".doc".toList ++ (b ++ ['('])) = s.step '(' := by
        rw [Reader.after_append, hs.after_of_plain (by decide), Reader.after_append, hs.after_blank hb]
        rfl
      rw [hopening]
      exact after_documentFront hs
  have hback : Reader.Covers [')'] ").single()".toList := by
    exact Reader.covers_of_not_mem (by decide) fun s hs => after_documentBack hs
  have hcall : callText name inner = ".doc".toList ++ (b ++ ['(']) ++ (inner ++ [')']) := by
    rw [callText_eq, ← hname, htext]
  rw [hcall, List.append_assoc]
  exact hfront.append ((Reader.covers_strip inner).append hback)

theorem covers_before (hsegs : ∀ old new, .replaced old new ∈ segs → Reader.Covers old new) :
    Reader.Covers (before segs) (after segs) := by
  induction segs with
  | nil => exact Reader.covers_refl []
  | cons segment segs ih =>
    have ih := ih fun old new h => hsegs old new (List.mem_cons_of_mem _ h)
    rw [before_cons, after_cons]
    cases segment with
    | kept c => exact (Reader.covers_refl [c]).append ih
    | replaced old new => exact (hsegs old new List.mem_cons_self).append ih

theorem after_eq_before_of_blank (h : action.frame? = some (lead, trail))
    (hsegs : ∀ old new, .replaced old new ∈ segs → action.Converts old new)
    (hb : allBlank (before segs) = true) : after segs = before segs := by
  induction segs with
  | nil => rfl
  | cons segment segs ih =>
    rw [before_cons, allBlank, List.all_append, Bool.and_eq_true] at hb
    have ih := ih (fun old new h => hsegs old new (List.mem_cons_of_mem _ h)) hb.2
    cases segment with
    | kept c => rw [before_cons, after_cons, ih]; rfl
    | replaced old new =>
      obtain ⟨name, inner, -, -, -, rfl, -⟩ := exists_of_frame h (hsegs old new List.mem_cons_self)
      have := List.all_eq_true.1 hb.1 '(' (by simp [Segment.before, callText])
      exact absurd this (by decide)

theorem allBlank_of_strip (h : strip t = []) : allBlank t = true := by
  obtain ⟨w, w', ht, hw, hw'⟩ := exists_strip t
  rw [ht, h, List.nil_append, allBlank, List.all_append, Bool.and_eq_true]
  exact ⟨hw, hw'⟩

/-- The name of a call that stands alone is found also with other arguments. -/
theorem FindsCall.alone (hp : FindsCall p) (hm : p.matchAt? (.start (callText name inner)) = some m)
    (hname : m.text = name ++ ['(']) (inner' : Text) :
    ∃ m', p.matchAt? (.start (callText name inner')) = some m' ∧ m'.text = name ++ ['('] := by
  have hm : p.matchAt? (.between [] (name ++ ['('] ++ (inner ++ [')']))) = some m := by
    rwa [← callText_eq]
  rw [callText_eq]
  exact hp.move hm hname (overlooks_nil p) (inner' ++ [')'])

/-- A call that is converted after the edits in its arguments would have been converted before them. -/
theorem converts_before (h : action.frame? = some (lead, trail))
    (hsegs : ∀ old new, .replaced old new ∈ segs → action.Converts old new) (hname : '(' ∉ name)
    (hafter : Nested .parentheses (after segs)) (hbefore : Nested .parentheses (before segs))
    (hc : action.Converts (callText name (after segs)) new) :
    ∃ new', action.Converts (callText name (before segs)) new' := by
  cases action with
  | document =>
    obtain ⟨m, name', inner, hm, hname', hcall, hi, hnew⟩ := (callEdit_start_iff (by decide)).1 hc
    obtain ⟨rfl, rfl, -⟩ := callText_inj hname (findsName_documentCall.not_mem hm hname') hafter hi
      (congrArg (· ++ []) hcall)
    obtain ⟨id, hid, hne, -⟩ := convertDocument_eq_some_iff.1 hnew
    obtain ⟨hlength, rfl⟩ := (argumentTexts_eq_singleton_iff hne).1 hid
    have hparts := (covers_before fun old new hmem => covers_document (hsegs old new hmem)) _
      Reader.proper_start
    have hpos := Reader.length_parts_pos .start (before segs)
    have hbare : strip (before segs) ≠ [] := by
      intro hstrip
      rw [after_eq_before_of_blank h hsegs (allBlank_of_strip hstrip)] at hne
      exact hne hstrip
    have hargs := (argumentTexts_eq_singleton_iff hbare).2 ⟨by omega, rfl⟩
    obtain ⟨m', hm', hname''⟩ := findsName_documentCall.alone hm hname' (before segs)
    have hnew' := (convertDocument_eq_some_iff (m := m')).2 ⟨_, hargs, hbare, rfl⟩
    exact ⟨_, (callEdit_start_iff (by decide)).2 ⟨m', name, _, hm', hname'', rfl, hbefore, hnew'⟩⟩
  | response method =>
    obtain ⟨m, name', inner, hm, hname', hcall, hi, hnew⟩ := (callEdit_start_iff (by decide)).1 hc
    obtain ⟨rfl, rfl, -⟩ := callText_inj hname (findsName_responseCall.not_mem hm hname') hafter hi
      (congrArg (· ++ []) hcall)
    have hcalls := (Calls.eq_of_part hm).1 (convertResponse_eq_some_iff.1 hnew).1
    obtain ⟨m', hm', hname''⟩ := findsName_responseCall.alone hm hname' (before segs)
    rw [hname', ← hname''] at hcalls
    have hnew' : convertResponse method (argumentTexts (before segs)) m' = some _ :=
      convertResponse_eq_some_iff.2 ⟨(Calls.eq_of_part hm').2 hcalls, rfl⟩
    exact ⟨_, (callEdit_start_iff (by decide)).2 ⟨m', name, _, hm', hname'', rfl, hbefore, hnew'⟩⟩
  | _ => cases h

/-! What is left. -/

/-- No call is converted in an edited text that begins where a character is kept. -/
theorem Cut.declined_after (h : action.frame? = some (lead, trail)) (hcut : Cut action [] segs)
    (hsegs : segs = s₁ ++ .kept c :: s₂) (hcall : c :: after s₂ = call ++ rest)
    (hat : action.CallAt (after s₁) call rest) : ¬action.Converts call new := by
  intro hnew
  obtain ⟨p, hp, hpattern, hclosed⟩ := exists_of_frame? h
  have hconverts {old new : Text} (hmem : .replaced old new ∈ segs) : action.Converts old new :=
    hcut.converts hmem
  have hback {old new : Text} (hmem : .replaced old new ∈ .kept c :: s₂) : action.Converts old new :=
    hconverts (hsegs ▸ List.mem_append_right s₁ hmem)
  rw [hclosed] at hat
  have hover := overlooks_before hp h (fun old new hmem => hconverts (hsegs ▸ List.mem_append_left _ hmem))
    (hat.overlooks hp.toFindsCall)
  obtain ⟨m, name, inner, hm, hname, rfl, hi⟩ := hat
  -- Its name and its closing parenthesis are kept, so that it is a call before the edits too.
  have hafter : after (.kept c :: s₂) = name ++ ['('] ++ (inner ++ ')' :: rest) :=
    hcall.trans (callText_append ..)
  obtain ⟨segs', hkept, hrest⟩ := exists_name_kept h hpattern hp (fun _ _ => hback) hm hname hafter
  have hinside {old new : Text} (hmem : .replaced old new ∈ segs') : action.Converts old new :=
    hback (hkept ▸ List.mem_append_right _ hmem)
  obtain ⟨s₃, s₄, rfl, rfl, hdepth⟩ := exists_closing
    (fun _ _ hmem => nested_of_frame h (hinside hmem)) hrest ((nested_iff (by decide)).1 hi)
  have hbefore := (nested_iff (by decide)).2 hdepth
  obtain ⟨new', hnew'⟩ := converts_before h
    (fun _ _ hmem => hinside (List.mem_append_left _ hmem)) (hp.not_mem hm hname) hi hbefore hnew
  have htext : c :: before s₂ = callText name (before s₃) ++ before s₄ := by
    have := congrArg before hkept
    simpa [callText, Segment.before] using this
  rw [callText_append] at hm
  obtain ⟨m', hm', hname'⟩ := hp.move hm hname hover (before s₃ ++ ')' :: before s₄)
  refine hcut.declined hsegs htext ?_ hnew'
  rw [hclosed]
  refine ⟨m', name, before s₃, ?_, hname', rfl, hbefore⟩
  rwa [List.nil_append, callText_append]

/-- A call that is converted in an edited text lies in the arguments of a call that has been converted. -/
theorem Cut.exists_of_holds (h : action.frame? = some (lead, trail)) (hcut : Cut action [] segs)
    (hholds : action.Holds (after segs)) :
    ∃ name inner new, '(' ∉ name ∧ .replaced (callText name inner) new ∈ segs ∧ action.Holds inner := by
  obtain ⟨front, call, rest, new, hafter, hat, hnew⟩ := hholds
  obtain ⟨p, hp, hpattern, hclosed⟩ := exists_of_frame? h
  have hne : call ++ rest ≠ [] :=
    List.append_ne_nil_of_left_ne_nil ((Action.editsCalls hpattern).ne_nil hat) rest
  rcases exists_of_after_eq_append hafter hne with
    ⟨s₁, c, s₂, hsegs, rfl, hcall⟩ | ⟨s₁, old, x, y, s₂, rfl, hy, rfl, hcall⟩
  · exact absurd hnew (hcut.declined_after h hsegs hcall.symm hat)
  · have hconverts : action.Converts old (x ++ y) := hcut.converts (by simp)
    obtain ⟨name, inner, hname, -, hi, rfl, hput⟩ := exists_of_frame h hconverts
    obtain ⟨hlead, htrail, hclosing, -⟩ := frame_avoids h hpattern
    rw [hclosed] at hat
    obtain ⟨u, r, hrow, hu⟩ := closedCall_row hp (nested_row hi) hlead htrail hclosing hput.symm hy hcall hat
    refine ⟨name, inner, x ++ y, hname, by simp, ?_⟩
    refine (holds_row_iff h hname hi hconverts).1 ⟨u, call, r, new, hrow, ?_, hnew⟩
    rwa [hclosed]

/-- The arguments of a call that has been converted are in the edited text. -/
theorem Cut.holds_of_mem (h : action.frame? = some (lead, trail)) (hcut : Cut action [] segs)
    (hname : '(' ∉ name) (hmem : .replaced (callText name inner) new ∈ segs) (hholds : action.Holds inner) :
    action.Holds (after segs) := by
  obtain ⟨p, hp, hpattern, hclosed⟩ := exists_of_frame? h
  have hconverts := hcut.converts hmem
  obtain ⟨name', inner', hname', -, hi, hcall, rfl⟩ := exists_of_frame h hconverts
  obtain ⟨rfl, hinner⟩ := append_opening_inj hname hname' hcall
  obtain rfl := List.append_cancel_right hinner
  obtain ⟨-, -, -, r, a, rfl, ha⟩ := frame_avoids h hpattern
  obtain ⟨s₁, s₂, rfl⟩ := List.append_of_mem hmem
  have hrow := (holds_row_iff h hname hi hconverts).2 hholds
  have := hrow.embed hp hclosed (hp.overlooks_concat (after s₁ ++ r) ha) (trail ++ after s₂)
  simpa [Segment.after] using this

/-- A stretch shares characters with what has been put in place of a call. -/
def Touches (segs : List Segment) (front t : Text) : Prop :=
  ∃ s₁ old new s₂, segs = s₁ ++ .replaced old new :: s₂ ∧
    (after s₁).length < front.length + t.length ∧ front.length < (after s₁).length + new.length

/-- A filter that is converted in an edited text shares characters with what has been put in place of one. -/
theorem Cut.touches (hcut : Cut .filter [] segs) (hafter : after segs = front ++ (call ++ rest))
    (hat : Action.filter.CallAt front call rest) (hnew : Action.filter.Converts call new) :
    Touches segs front call := by
  have hne : call ≠ [] := (Action.editsCalls rfl).ne_nil hat
  have hlength := List.length_pos_iff.2 hne
  rcases exists_of_after_eq_append hafter (List.append_ne_nil_of_left_ne_nil hne rest) with
    ⟨s₁, c, s₂, hsegs, rfl, hcall⟩ | ⟨s₁, old, x, y, s₂, rfl, hy, rfl, -⟩
  · have hkept : after (.kept c :: s₂) = call ++ rest := hcall.symm
    rcases exists_kept_of_prefix hkept with ⟨segs', hs₂, -⟩ | ⟨w, old, put, segs', hs₂, hw⟩
    · -- All of its characters are kept, so that it has been passed over.
      have htext : c :: before s₂ = call ++ before segs' := by
        have := congrArg before hs₂
        simpa [Segment.before] using this
      have hclosed : ClosedCall filterCall (after s₁) call rest := hat
      exact absurd hnew (hcut.declined hsegs htext
        (hclosed.move (findsCall_of_mem (by simp)) (fun _ _ => rfl) _))
    · have hpos : w ≠ [] := by
        rintro rfl
        cases hs₂
      have := List.length_pos_iff.2 hpos
      refine ⟨s₁ ++ w.map .kept, old, put, segs', by rw [hsegs, hs₂, List.append_assoc], ?_, ?_⟩
      · simpa using hw
      · simp
        omega
  · have := List.length_pos_iff.2 hy
    refine ⟨s₁, old, x ++ y, s₂, rfl, ?_, ?_⟩
    · rw [List.length_append]
      omega
    · rw [List.length_append, List.length_append]
      omega

theorem convertFilter_eq_some_iff {arguments : List Text} : convertFilter arguments m = some new ↔
    ∃ field operator value method, arguments = [field, operator, value] ∧
      filterMethods.lookup (String.ofList (trim isQuote operator)) = some method ∧
      new = ".".toList ++ method.toList ++ "(".toList ++ field ++ ", ".toList ++ value ++ ")".toList := by
  unfold convertFilter
  split
  · rename_i field operator value
    constructor
    · intro h
      obtain ⟨method, hmethod, rfl⟩ := Option.map_eq_some_iff.1 h
      exact ⟨field, operator, value, method, rfl, hmethod, rfl⟩
    · rintro ⟨_, _, _, method, hargs, hmethod, rfl⟩
      cases hargs
      exact Option.map_eq_some_iff.2 ⟨method, hmethod, rfl⟩
  · rename_i hno
    constructor
    · intro h
      cases h
    · rintro ⟨field, operator, value, _, rfl, -⟩
      exact absurd rfl (hno field operator value)

/-- The field and the value of a filter that has been converted are in the edited text. -/
theorem Cut.holds_of_filter (hcut : Cut .filter [] segs) {field operator value : Text} (hname : '(' ∉ name)
    (hmem : .replaced (callText name inner) new ∈ segs) (hargs : argumentTexts inner = [field, operator, value])
    (hholds : Action.filter.Holds field ∨ Action.filter.Holds value) : Action.filter.Holds (after segs) := by
  obtain ⟨m, name', inner', hm, hname', hcall, -, hnew⟩ :=
    (callEdit_start_iff (by decide)).1 (hcut.converts hmem)
  obtain ⟨-, hinner⟩ := append_opening_inj hname (findsName_filterCall.not_mem hm hname') hcall
  obtain rfl := List.append_cancel_right hinner
  obtain ⟨_, _, _, method, hargs', -, rfl⟩ := convertFilter_eq_some_iff.1 hnew
  cases hargs.symm.trans hargs'
  obtain ⟨s₁, s₂, rfl⟩ := List.append_of_mem hmem
  have hembed {t : Text} (front back : Text) (h : Action.filter.Holds t) :
      Action.filter.Holds (front ++ (t ++ back)) :=
    h.embed findsName_filterCall rfl (fun _ _ => rfl) back
  rcases hholds with h | h
  · have := hembed (after s₁ ++ (".".toList ++ method.toList ++ "(".toList))
      (", ".toList ++ value ++ ")".toList ++ after s₂) h
    simpa [Segment.after] using this
  · have := hembed (after s₁ ++ (".".toList ++ method.toList ++ "(".toList ++ field ++ ", ".toList))
      (")".toList ++ after s₂) h
    simpa [Segment.after] using this

/-- A rule leaves a call that it converts elsewhere only where it has converted another one. A document or an
answer is left exactly if it is in the arguments of one; a filter in the field or in the value of one is left,
and no filter away from those that have been put in place of others. -/
theorem apply_leaves_calls_in_arguments (name : String) (t : Text) :
    (∀ action ∈ [Action.document, .response .json, .response .send],
      (action.Holds ((Rule.mk name action).apply t) ↔ ∃ called inner new, '(' ∉ called ∧
        .replaced (callText called inner) new ∈ segments action.edit t ∧ action.Holds inner)) ∧
    (∀ called inner new field operator value, '(' ∉ called →
      .replaced (callText called inner) new ∈ segments Action.filter.edit t →
      argumentTexts inner = [field, operator, value] →
      Action.filter.Holds field ∨ Action.filter.Holds value →
        Action.filter.Holds ((Rule.mk name .filter).apply t)) ∧
    ∀ front call rest new, (Rule.mk name .filter).apply t = front ++ (call ++ rest) →
      Action.filter.CallAt front call rest → Action.filter.Converts call new →
        Touches (segments Action.filter.edit t) front call := by
  refine ⟨?_, ?_, ?_⟩
  · intro action haction
    obtain ⟨lead, trail, h⟩ : ∃ lead trail, action.frame? = some (lead, trail) := by
      simp only [List.mem_cons, List.not_mem_nil, or_false] at haction
      rcases haction with rfl | rfl | rfl <;> exact ⟨_, _, rfl⟩
    obtain ⟨p, -, hp, -⟩ := exists_of_frame? h
    have hcut := cut_segments hp t
    constructor
    · exact hcut.exists_of_holds h
    · rintro ⟨called, inner, new, hcalled, hmem, hholds⟩
      exact hcut.holds_of_mem h hcalled hmem hholds
  · intro called inner new field operator value hcalled hmem hargs hholds
    exact (cut_segments rfl t).holds_of_filter hcalled hmem hargs hholds
  · intro front call rest new hafter hat hnew
    exact (cut_segments rfl t).touches hafter hat hnew

/-- The call in the arguments of a document that is converted is left. -/
theorem holds_document_in_document :
    Action.document.Holds ((Rule.mk "doc" .document).apply "db.doc(a.doc(b));".toList) := by
  have hedit : Action.document.edit (.between ['a'] ".doc(b)".toList) =
      some (.replace 7 ".select().eq('id', b).single()".toList) := by decide +kernel
  have hmem : .replaced (callText ".doc".toList "a.doc(b)".toList)
      ".select().eq('id', a.doc(b)).single()".toList ∈
        segments Action.document.edit "db.doc(a.doc(b));".toList := by decide +kernel
  obtain ⟨call, rest, htext, -, hat, hnew⟩ := (Action.editsCalls rfl).replace_iff.1 hedit
  exact (cut_segments rfl _).holds_of_mem rfl (by decide) hmem
    ⟨['a'], call, rest, _, congrArg _ htext, hat, hnew⟩

end BackendMigration.Adaptation
