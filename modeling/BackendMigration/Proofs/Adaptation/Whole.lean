import BackendMigration.Adaptation.Rule
import BackendMigration.Proofs.Adaptation.Answers
import BackendMigration.Proofs.Adaptation.Balance
import BackendMigration.Proofs.Pattern.Local

/-! Whole calls in a text, from the name to the parenthesis that balances the opening one, and when an
action converts them. -/
namespace BackendMigration.Adaptation

open Source Text Pattern

/-- A text that ends at its first opening parenthesis. -/
def Opens (t : Text) : Prop := ∃ name, t = name ++ ['('] ∧ '(' ∉ name

section Opening

variable {s t u x y name name' inner inner' : Text}

/-- Texts are cut alike at the first opening parenthesis. -/
theorem append_opening_inj (hs : '(' ∉ s) (ht : '(' ∉ t) (h : s ++ '(' :: x = t ++ '(' :: y) :
    s = t ∧ x = y := by
  -- Whichever part is longer begins with the shorter one and the parenthesis.
  rcases List.append_eq_append_iff.1 h with ⟨w, rfl, hw⟩ | ⟨w, rfl, hw⟩
  · cases w with
    | nil => exact ⟨(List.append_nil s).symm, (List.cons.inj hw).2⟩
    | cons a w =>
      obtain ⟨rfl, -⟩ := List.cons.inj hw
      exact absurd (List.mem_append_right s List.mem_cons_self) ht
  · cases w with
    | nil => exact ⟨List.append_nil t, (List.cons.inj hw).2.symm⟩
    | cons a w =>
      obtain ⟨rfl, -⟩ := List.cons.inj hw
      exact absurd (List.mem_append_right t List.mem_cons_self) hs

theorem Opens.eq_of_append (hs : Opens s) (ht : Opens t) (h : s ++ x = t ++ y) : s = t ∧ x = y := by
  obtain ⟨name, rfl, hname⟩ := hs
  obtain ⟨name', rfl, hname'⟩ := ht
  rw [List.append_assoc, List.append_assoc] at h
  obtain ⟨rfl, rfl⟩ := append_opening_inj hname hname' h
  exact ⟨rfl, rfl⟩

/-- What is left of a text that ends at its first opening parenthesis is another one. -/
theorem Opens.of_append (h : Opens (s ++ u)) (hu : u ≠ []) : Opens u := by
  obtain ⟨name, hname, hno⟩ := h
  rcases List.eq_nil_or_concat u with rfl | ⟨v, a, rfl⟩
  · exact absurd rfl hu
  · rw [List.concat_eq_append, ← List.append_assoc] at hname
    obtain ⟨rfl, ha⟩ := List.append_inj' hname rfl
    rw [List.concat_eq_append, ha]
    exact ⟨v, rfl, fun hv => hno (List.mem_append_right _ hv)⟩

theorem opens_concat_iff : Opens (name ++ ['(']) ↔ '(' ∉ name := by
  constructor
  · rintro ⟨name', h, hno⟩
    rwa [List.append_cancel_right h]
  · intro h
    exact ⟨name, rfl, h⟩

/-- One text begins with one call at most. -/
theorem callText_inj (hname : '(' ∉ name) (hname' : '(' ∉ name') (hi : Nested .parentheses inner)
    (hi' : Nested .parentheses inner') (h : callText name inner ++ x = callText name' inner' ++ y) :
    name = name' ∧ inner = inner' ∧ x = y := by
  have split (name inner x : Text) :
      callText name inner ++ x = name ++ '(' :: (inner ++ ')' :: x) := by simp [callText]
  rw [split, split] at h
  obtain ⟨rfl, hrest⟩ := append_opening_inj hname hname' h
  have hargs := (argumentList?_of_nested hi x).symm.trans
    ((congrArg (fun r => argumentList? ('(' :: r)) hrest).trans (argumentList?_of_nested hi' y))
  obtain ⟨rfl, -⟩ := ArgumentList.mk.inj (Option.some.inj hargs)
  rw [List.append_cancel_left_eq, List.cons.injEq] at hrest
  exact ⟨rfl, rfl, hrest.2⟩

end Opening

/-- The pattern finds names of calls: each match ends at its first opening parenthesis, and what stands
around it makes no difference. -/
structure FindsCall (p : Pattern) : Prop where
  free : p.free = true
  opens : ∀ {c m}, p.matchAt? c = some m → Opens m.text
  overlooks : ∀ {front back m}, p.matchAt? (.between front back) = some m → Overlooks p front

theorem opens_of_matchAt? {p : Pattern} (hp : OpensCall p) (hopening : p.endsWith '(' = true)
    (hclosing : p.allows ')' = false) {c : Cursor} {m : Match} (hm : p.matchAt? c = some m) :
    Opens m.text := by
  obtain ⟨name, hname⟩ := exists_of_endsWith hopening (spells_of_matchAt? hm)
  have hbalance : balance .parentheses m.text = 1 :=
    Pattern.balance_of_matchAt? hm (hp.2 .parentheses (by decide))
  have hno : ')' ∉ m.text := fun h => by
    rw [allows_of_mem_matchAt? hm _ h] at hclosing
    cases hclosing
  have hcount : m.text.count ')' = 0 := List.count_eq_zero.2 hno
  have hopen : m.text.count '(' = name.count '(' + 1 := by rw [hname]; simp
  refine ⟨name, hname, List.count_eq_zero.1 ?_⟩
  simp only [balance, Delimiters.parentheses, hcount, hopen] at hbalance
  omega

/-- A call on the response object is not found within a word. -/
theorem overlooks_of_callOn {method : Pattern} {front back : Text} {m : Match}
    (hedge : (callOn responseObject method).beginsApart false = true)
    (ho : ∀ a, isWord a = false → (callOn responseObject method).overlooks a = true)
    (hm : (callOn responseObject method).matchAt? (.between front back) = some m) :
    Overlooks (callOn responseObject method) front := by
  obtain ⟨_, _, _, -, -, hhead, -⟩ := exists_of_match hm
  intro a ha
  refine ho a (Bool.eq_false_iff.2 fun hw => ?_)
  exact absurd (isBreak_of_matchAt? hm hedge a ha 'r' hhead hw) (by decide)

theorem findsCall_of_mem {p : Pattern}
    (hp : p ∈ [documentCall, filterCall, statusCall, responseCall, chainedCall]) : FindsCall p where
  free := by
    have all : ∀ p ∈ [documentCall, filterCall, statusCall, responseCall, chainedCall],
        p.free = true := by decide
    exact all p hp
  opens {c m} hm := by
    have all : ∀ p ∈ [documentCall, filterCall, statusCall, responseCall, chainedCall],
        p.endsWith '(' = true ∧ p.allows ')' = false := by decide
    exact opens_of_matchAt? (opensCall_of_mem hp) (all p hp).1 (all p hp).2 hm
  overlooks {front back m} hm := by
    simp only [List.mem_cons, List.not_mem_nil, or_false] at hp
    rcases hp with rfl | rfl | rfl | rfl | rfl
    · exact fun a _ => rfl
    · exact fun a _ => rfl
    · refine overlooks_of_callOn (by decide) (fun a ha => ?_) hm
      simp [callOn, responseObject, overlooks, ha, concat, text, Pattern.optional, someBlanks, point,
        opening, blanks, repeated]
    · refine overlooks_of_callOn (by decide) (fun a ha => ?_) hm
      simp [callOn, responseObject, overlooks, ha, concat, text, Pattern.optional, someBlanks, point,
        opening, blanks, repeated, anyMethod, choice]
    · exact fun a _ => rfl

/-! The method that a name calls. -/

/-- The name ends with a call of the method. -/
def Calls (called : ResponseMethod) (t : Text) : Prop :=
  ∃ u b, allBlank b = true ∧ t = u ++ (called.name.toList ++ (b ++ ['(']))

/-- The last letter of the method tells it from the other one. -/
theorem Calls.unique {called called' : ResponseMethod} {s t : Text} (h : Calls called s)
    (h' : Calls called' t) (hst : t <:+ s) : called = called' := by
  have letter {called : ResponseMethod} {t : Text} (h : Calls called t) :
      (t.dropLast.reverse.dropWhile isBlank).head? = called.name.toList.getLast? := by
    obtain ⟨u, b, hb, rfl⟩ := h
    have hb : b.reverse.dropWhile isBlank = [] :=
      (trimStart_eq_nil_iff _ _).2 fun a ha => List.all_eq_true.1 hb a (List.mem_reverse.1 ha)
    rw [← List.append_assoc, ← List.append_assoc, List.dropLast_concat, List.reverse_append,
      List.dropWhile_append, hb, List.isEmpty_nil, if_pos rfl]
    cases called <;> simp [ResponseMethod.name] <;> rfl
  have hs : Calls called' s := by
    obtain ⟨w, rfl⟩ := hst
    obtain ⟨u, b, hb, rfl⟩ := h'
    exact ⟨w ++ u, b, hb, (List.append_assoc ..).symm⟩
  have hletter := (letter h).symm.trans (letter hs)
  cases called <;> cases called' <;> first | rfl | exact absurd hletter (by decide)

/-- What a match keeps as the method is the method that its text calls. -/
theorem exists_method {object : Pattern} (ho : object.parts = []) {c : Cursor} {m : Match}
    (hm : (callOn object anyMethod).matchAt? c = some m) :
    ∃ called : ResponseMethod, m.part? "method" = some called.name.toList ∧ Calls called m.text := by
  obtain ⟨c₁, ht₁, h₁⟩ := takes_of_matchThen_of_parts ho hm
  obtain ⟨c₂, ht₂, h₂⟩ := takes_of_matchThen_of_parts
    (p := choice [text "json", text "send"]) rfl h₁
  obtain ⟨c₃, ht₃, h₃⟩ := takes_of_matchThen_of_parts (p := seq opening nothing) rfl h₂
  obtain ⟨u, -, hu⟩ := ht₁.spells
  obtain ⟨w, hw, hc₁⟩ := ht₂.spells
  obtain ⟨_, ⟨_, _, hopening, rfl, rfl⟩, hc₂⟩ := ht₃.spells
  obtain ⟨b, hb, rfl⟩ := spells_opening.1 hopening
  obtain ⟨called, rfl⟩ := spells_anyMethod hw
  obtain ⟨taken, htaken, hoffset⟩ := ht₂.rest_eq
  obtain rfl : called.name.toList = taken := List.append_cancel_right (hc₁.symm.trans htaken)
  have hmethod : Takes anyMethod c₁ c₂ := .part ht₂
  obtain ⟨all, hall, hend⟩ := (ht₁.seq (hmethod.seq ht₃)).rest_eq
  have hall' : c.rest = u ++ (called.name.toList ++ (b ++ ['('])) ++ c₃.rest := by
    rw [hu, hc₁, hc₂]
    simp only [List.append_assoc, List.append_nil]
  obtain rfl := Option.some.inj h₃
  refine ⟨called, ?_, u, b, hb, ?_⟩
  · simp [Match.part?, hoffset, htaken]
  · change c.rest.take (c₃.offset - c.offset) = _
    rw [hend, Nat.add_sub_cancel_left, hall, List.take_left]
    exact List.append_cancel_right (hall.symm.trans hall')

/-- The method is kept alike where the names end alike. -/
theorem part_method_eq (object : Pattern) (ho : object.parts = []) {c c' : Cursor} {m m' : Match}
    (hm : (callOn object anyMethod).matchAt? c = some m)
    (hm' : (callOn object anyMethod).matchAt? c' = some m') (h : m'.text <:+ m.text) :
    m.part? "method" = m'.part? "method" := by
  obtain ⟨called, hpart, hcalls⟩ := exists_method ho hm
  obtain ⟨called', hpart', hcalls'⟩ := exists_method ho hm'
  rw [hpart, hpart', hcalls.unique hcalls' h]

/-! Calls at a place. -/

/-- A call that the pattern finds at a place, up to the parenthesis that balances the opening one. -/
def ClosedCall (p : Pattern) (front call rest : Text) : Prop :=
  ∃ m name inner, p.matchAt? (.between front (call ++ rest)) = some m ∧ m.text = name ++ ['('] ∧
    call = callText name inner ∧ Nested .parentheses inner

variable {p : Pattern} {front front' back back' call rest rest' name inner new : Text} {m : Match}

theorem ne_nil_of_callText (name inner : Text) : callText name inner ≠ [] := by simp [callText]

theorem callText_append (name inner rest : Text) :
    callText name inner ++ rest = name ++ ['('] ++ (inner ++ ')' :: rest) := by
  simp [callText]

theorem FindsCall.not_mem (hp : FindsCall p) {c : Cursor} (hm : p.matchAt? c = some m)
    (hname : m.text = name ++ ['(']) : '(' ∉ name :=
  opens_concat_iff.1 (hname ▸ hp.opens hm)

/-- There is one call at most at a place. -/
theorem ClosedCall.unique (hp : FindsCall p) {call' rest' : Text} (h : ClosedCall p front call rest)
    (h' : ClosedCall p front call' rest') (heq : call ++ rest = call' ++ rest') : call = call' := by
  obtain ⟨m, name, inner, hm, hname, rfl, hi⟩ := h
  obtain ⟨m', name', inner', hm', hname', rfl, hi'⟩ := h'
  obtain ⟨rfl, rfl, -⟩ := callText_inj (hp.not_mem hm hname) (hp.not_mem hm' hname') hi hi' heq
  rfl

theorem rest_eq_of_text {c : Cursor} {t : Text} (hm : p.matchAt? c = some m) (ht : m.text = t) :
    ∃ c', Takes p c c' ∧ c.rest = t ++ c'.rest ∧ m.stop - m.start = t.length := by
  obtain ⟨c', htakes, -, -, hr, hl⟩ := takes_of_matchAt? hm
  exact ⟨c', htakes, ht ▸ hr, by rw [hl, ht, Nat.add_sub_cancel_left]⟩

/-- The name of a call is found also elsewhere. -/
theorem FindsCall.move (hp : FindsCall p) {t : Text}
    (hm : p.matchAt? (.between front (t ++ back)) = some m) (ht : m.text = t)
    (hfront : Overlooks p front') (back' : Text) :
    ∃ m', p.matchAt? (.between front' (t ++ back')) = some m' ∧ m'.text = t := by
  obtain ⟨c', htakes, hr, -⟩ := rest_eq_of_text hm ht
  have hr : c'.rest = back := (List.append_cancel_left hr).symm
  obtain ⟨d, hd, -⟩ := htakes.move hr hp.free (hp.overlooks hm) hfront back'
  obtain ⟨m', hm'⟩ := Option.isSome_iff_exists.1 (isSome_matchAt?_iff.2 ⟨d, hd⟩)
  obtain ⟨_, -, hr', -⟩ := rest_eq_of_text hm' rfl
  have hr' : t ++ back' = m'.text ++ _ := hr'
  exact ⟨m', hm', ((hp.opens hm').eq_of_append (ht ▸ hp.opens hm) hr'.symm).1⟩

/-- So is the name of a call together with its arguments. -/
theorem FindsCall.move_call (hp : FindsCall p)
    (hm : p.matchAt? (.between front (callText name inner ++ rest)) = some m)
    (hname : m.text = name ++ ['(']) (hfront : Overlooks p front') (rest' : Text) :
    ∃ m', p.matchAt? (.between front' (callText name inner ++ rest')) = some m' ∧
      m'.text = name ++ ['('] := by
  rw [callText_append] at hm ⊢
  exact hp.move hm hname hfront _

/-! Edits at a place. -/

theorem argumentList?_fromLast {c : Cursor} (hm : p.matchAt? c = some m) (hname : m.text = name ++ ['('])
    (hr : c.rest = callText name inner ++ rest) (hi : Nested .parentheses inner) :
    argumentList? (fromLast m c) = some ⟨inner, inner.length + 2⟩ := by
  obtain ⟨_, -, -, hl⟩ := rest_eq_of_text hm hname
  have hlast : fromLast m c = '(' :: (inner ++ ')' :: rest) := by
    rw [fromLast, hl, hr, callText_append, List.length_append, List.length_singleton,
      Nat.add_sub_cancel, List.append_assoc, List.drop_left]
    rfl
  rw [hlast, argumentList?_of_nested hi]

theorem length_of_match {c : Cursor} (hm : p.matchAt? c = some m) (hname : m.text = name ++ ['('])
    (inner : Text) : m.stop - m.start - 1 + (inner.length + 2) = (callText name inner).length := by
  obtain ⟨_, -, -, hl⟩ := rest_eq_of_text hm hname
  rw [hl]
  simp only [callText, List.length_append, List.length_cons, List.length_nil]
  omega

variable {convert : List Text → Match → Option Text} {n : Nat}

theorem callEdit_at (hm : p.matchAt? (.between front (callText name inner ++ rest)) = some m)
    (hname : m.text = name ++ ['(']) (hi : Nested .parentheses inner) :
    callEdit p convert (.between front (callText name inner ++ rest)) = some (.replace n new) ↔
      convert (argumentTexts inner) m = some new ∧ n = (callText name inner).length := by
  rw [callEdit, hm, Option.map_some]
  simp only [argumentList?_fromLast hm hname rfl hi, length_of_match hm hname]
  cases convert (argumentTexts inner) m with
  | none => simp
  | some new' =>
    rw [Option.some.injEq, Edit.replace.injEq, Option.some.injEq, and_comm, eq_comm (a := n)]

/-- What a call is replaced by. -/
theorem callEdit_eq_replace_iff (hp : 0 < p.minLength) :
    callEdit p convert (.between front back) = some (.replace n new) ↔
      ∃ m name inner rest, p.matchAt? (.between front back) = some m ∧ m.text = name ++ ['('] ∧
        back = callText name inner ++ rest ∧ Nested .parentheses inner ∧
        convert (argumentTexts inner) m = some new ∧ n = (callText name inner).length := by
  constructor
  · intro h
    obtain ⟨m, args, hm, ha, hnew, rfl⟩ := exists_of_callEdit h
    obtain ⟨name, rest, hname, hr, hl, hi⟩ := text_of_call hp hm ha
    exact ⟨m, name, args.inner, rest, hm, hname, hr, hi, hnew, hl⟩
  · rintro ⟨m, name, inner, rest, hm, hname, rfl, hi, hnew, rfl⟩
    exact (callEdit_at hm hname hi).2 ⟨hnew, rfl⟩

theorem advance_between (front t back : Text) :
    (Cursor.between front (t ++ back)).advance t.length = .between (front ++ t) back := by
  induction t generalizing front with
  | nil => simp [Cursor.advance]
  | cons a r ih =>
    have hstep : (Cursor.between front (a :: r ++ back)).advance (r.length + 1) =
        (Cursor.between (front ++ [a]) (r ++ back)).advance r.length := by
      simp [Cursor.advance, Cursor.between]
    rw [List.length_cons, hstep, ih, List.append_assoc, List.singleton_append]

section Status

variable {method : ResponseMethod} {name' status payload : Text} {m' : Match}

theorem statusEdit_at
    (hm : statusCall.matchAt? (.between front (callText name status ++ (callText name' payload ++ rest))) =
      some m) (hname : m.text = name ++ ['(']) (hs : Nested .parentheses status)
    (hm' : chainedCall.matchAt? (.between (front ++ callText name status) (callText name' payload ++ rest)) =
      some m') (hname' : m'.text = name' ++ ['(']) (hp : Nested .parentheses payload) :
    statusEdit method (.between front (callText name status ++ (callText name' payload ++ rest))) =
        some (.replace n new) ↔
      m'.part? "method" = some method.name.toList ∧
        n = (callText name status ++ callText name' payload).length ∧
        new = answerWithStatus method (strip status) (strip payload) := by
  have hlength : (callText name status).length + (m'.stop - m'.start - 1) + (payload.length + 2) =
      (callText name status ++ callText name' payload).length := by
    rw [List.length_append, ← length_of_match hm' hname' payload]
    omega
  rw [statusEdit, hm, Option.map_some]
  simp only [argumentList?_fromLast hm hname rfl hs, length_of_match hm hname status, advance_between, hm',
    argumentList?_fromLast hm' hname' rfl hp, hlength]
  split
  · rename_i hmethod
    simp [hmethod]
  · rename_i hmethod
    rw [Option.some.injEq, Edit.replace.injEq, eq_comm (a := n), eq_comm (a := new)]
    exact (and_iff_right (not_not.1 hmethod)).symm

/-- What a status call and the answer on it are replaced by. -/
theorem statusEdit_eq_replace_iff :
    statusEdit method (.between front back) = some (.replace n new) ↔
      ∃ m name status m' name' payload rest, statusCall.matchAt? (.between front back) = some m ∧
        m.text = name ++ ['('] ∧ back = callText name status ++ (callText name' payload ++ rest) ∧
        Nested .parentheses status ∧
        chainedCall.matchAt? (.between (front ++ callText name status) (callText name' payload ++ rest)) =
          some m' ∧ m'.text = name' ++ ['('] ∧ Nested .parentheses payload ∧
        m'.part? "method" = some method.name.toList ∧
        n = (callText name status ++ callText name' payload).length ∧
        new = answerWithStatus method (strip status) (strip payload) := by
  constructor
  · intro h
    obtain ⟨m, hm, he⟩ := Option.map_eq_some_iff.1 h
    dsimp only at he
    split at he
    · cases he
    · rename_i status hstatus
      obtain ⟨name, rest, hname, hr, hl, hs⟩ := text_of_call (by decide) hm hstatus
      have hr : back = callText name status.inner ++ rest := hr
      subst hr
      rw [hl, advance_between] at he
      split at he
      · cases he
      · rename_i chained hchained
        split at he
        · cases he
        · rename_i hmethod
          split at he
          · cases he
          · rename_i payload hpayload
            obtain ⟨rfl, rfl⟩ := Edit.replace.inj he
            obtain ⟨name', rest', hname', hr', hl', hp⟩ := text_of_call (by decide) hchained hpayload
            have hr' : rest = callText name' payload.inner ++ rest' := hr'
            subst hr'
            refine ⟨m, name, status.inner, chained, name', payload.inner, rest', hm, hname, rfl, hs,
              hchained, hname', hp, not_not.1 hmethod, ?_, rfl⟩
            rw [List.length_append, ← hl']
            omega
  · rintro ⟨m, name, status, m', name', payload, rest, hm, hname, rfl, hs, hm', hname', hp, hend⟩
    exact (statusEdit_at hm hname hs hm' hname' hp).2 hend

end Status

/-! Edits that replace calls. -/

/-- An edit replaces calls that begin with a match of the pattern, and what stands around a call makes no
difference. -/
structure EditsCalls (edit : Cursor → Option Edit) (callAt : Text → Text → Text → Prop) (p : Pattern) :
    Prop where
  opens : ∀ {c m}, p.matchAt? c = some m → Opens m.text
  ne_nil : ∀ {front call rest}, callAt front call rest → call ≠ []
  unique : ∀ {front call rest call' rest'}, callAt front call rest → callAt front call' rest' →
    call ++ rest = call' ++ rest' → call = call'
  none_iff : ∀ {c}, edit c = none ↔ p.matchAt? c = none
  keep : ∀ {c n}, edit c = some (.keep n) → ∃ m, p.matchAt? c = some m ∧ n = m.text.length
  replace_iff : ∀ {front back n new}, edit (.between front back) = some (.replace n new) ↔
    ∃ call rest, back = call ++ rest ∧ n = call.length ∧ callAt front call rest ∧
      edit (.start call) = some (.replace call.length new)
  /-- A call that begins within the name of another one is not replaced without it. -/
  within : ∀ {front s back m n new}, p.matchAt? (.between front (s ++ back)) = some m →
    s.length < m.text.length → edit (.between (front ++ s) back) = some (.replace n new) →
      edit (.between front (s ++ back)) = some (.replace (s.length + n) new)

/-- The conversion depends on the end of a match only. -/
def ReadsEnd (p : Pattern) (convert : List Text → Match → Option Text) : Prop :=
  ∀ ⦃c c' m m' args⦄, p.matchAt? c = some m → p.matchAt? c' = some m' → m'.text <:+ m.text →
    convert args m = convert args m'

/-- A match within another one is the rest of it. -/
theorem text_within {s : Text} {m m' : Match} (hm : p.matchAt? (.between front (s ++ back)) = some m)
    (hs : s.length < m.text.length) (hm' : p.matchAt? (.between (front ++ s) back) = some m')
    (hopens : Opens m.text) (hopens' : Opens m'.text) : m.text = s ++ m'.text := by
  obtain ⟨c', -, hr, -⟩ := rest_eq_of_text hm rfl
  obtain ⟨d', -, hr', -⟩ := rest_eq_of_text hm' rfl
  have hr : s ++ back = m.text ++ c'.rest := hr
  have hr' : back = m'.text ++ d'.rest := hr'
  obtain ⟨u, hu⟩ := List.prefix_of_prefix_length_le (List.prefix_append s back)
    ⟨c'.rest, hr.symm⟩ (Nat.le_of_lt hs)
  have hne : u ≠ [] := by
    rintro rfl
    rw [List.append_nil] at hu
    rw [hu] at hs
    exact absurd hs (Nat.lt_irrefl _)
  rw [← hu, List.append_assoc, List.append_cancel_left_eq, hr'] at hr
  have hu' := (hu ▸ hopens : Opens (s ++ u)).of_append hne
  rw [← hu, (hopens'.eq_of_append hu' hr).1]

/-- The name of a call that begins within another name. -/
theorem name_of_within {s : Text} {m m' : Match} (h : m.text = s ++ m'.text)
    (hname : m'.text = name ++ ['(']) : m.text = (s ++ name) ++ ['('] := by
  rw [h, hname, List.append_assoc]

/-- What stands around a call makes no difference to what it is replaced by. -/
theorem ClosedCall.callEdit_iff (h : ClosedCall p front call rest) (hp : FindsCall p)
    (hc : ReadsEnd p convert) : callEdit p convert (.between front (call ++ rest)) = some (.replace n new) ↔
      callEdit p convert (.start call) = some (.replace n new) := by
  obtain ⟨m, name, inner, hm, hname, rfl, hi⟩ := h
  obtain ⟨m', hm', hname'⟩ := hp.move_call hm hname (overlooks_nil p) []
  have hstart : callEdit p convert (.between [] (callText name inner ++ [])) = some (.replace n new) ↔ _ :=
    callEdit_at hm' hname' hi
  rw [List.append_nil] at hstart
  rw [callEdit_at hm hname hi, hc hm hm' (hname'.trans hname.symm ▸ List.suffix_refl _)]
  exact hstart.symm

theorem callEdit_editsCalls (hp : FindsCall p) (hl : 0 < p.minLength) (hc : ReadsEnd p convert) :
    EditsCalls (callEdit p convert) (ClosedCall p) p where
  opens := hp.opens
  ne_nil := by
    rintro front _ rest ⟨_, name, inner, -, -, rfl, -⟩
    exact ne_nil_of_callText name inner
  unique := ClosedCall.unique hp
  none_iff := Option.map_eq_none_iff
  keep {c n} h := by
    obtain ⟨m, hm, rfl⟩ := exists_of_callEdit_keep h
    obtain ⟨_, -, -, hl⟩ := rest_eq_of_text hm rfl
    exact ⟨m, hm, hl⟩
  replace_iff {front back n new} := by
    constructor
    · intro h
      obtain ⟨m, name, inner, rest, hm, hname, rfl, hi, -, rfl⟩ := (callEdit_eq_replace_iff hl).1 h
      have hat : ClosedCall p front (callText name inner) rest := ⟨m, name, inner, hm, hname, rfl, hi⟩
      exact ⟨_, rest, rfl, rfl, hat, (hat.callEdit_iff hp hc).1 h⟩
    · rintro ⟨call, rest, rfl, rfl, hat, h⟩
      exact (hat.callEdit_iff hp hc).2 h
  within {front s back m n new} hm hs h := by
    obtain ⟨m', name, inner, rest, hm', hname, rfl, hi, hnew, rfl⟩ := (callEdit_eq_replace_iff hl).1 h
    have htext := text_within hm hs hm' (hp.opens hm) (hp.opens hm')
    refine (callEdit_eq_replace_iff hl).2
      ⟨m, s ++ name, inner, rest, hm, name_of_within htext hname, ?_, hi, ?_, ?_⟩
    · simp only [callText, List.append_assoc]
    · rw [← hnew]
      exact hc hm hm' ⟨s, htext.symm⟩
    · simp only [callText, List.append_assoc, List.length_append]

/-- A status call and the answer on it, which both close. -/
def StatusAt (front call rest : Text) : Prop :=
  ∃ status answer, call = status ++ answer ∧ ClosedCall statusCall front status (answer ++ rest) ∧
    ClosedCall chainedCall (front ++ status) answer rest

theorem findsCall_statusCall : FindsCall statusCall := findsCall_of_mem (by simp)

theorem findsCall_chainedCall : FindsCall chainedCall := findsCall_of_mem (by simp)

/-- What stands around a status call and the answer on it makes no difference to what they are replaced by. -/
theorem StatusAt.statusEdit_iff {method : ResponseMethod} (h : StatusAt front call rest) :
    statusEdit method (.between front (call ++ rest)) = some (.replace n new) ↔
      statusEdit method (.start call) = some (.replace n new) := by
  obtain ⟨_, _, rfl, ⟨m, name, status, hm, hname, rfl, hs⟩, ⟨m', name', payload, hm', hname', rfl, hp⟩⟩ := h
  have hoverlooks : Overlooks chainedCall ([] ++ callText name status) := fun _ _ => rfl
  obtain ⟨m₀, hm₀, hname₀⟩ := findsCall_statusCall.move_call hm hname (overlooks_nil _)
    (callText name' payload ++ [])
  obtain ⟨m₀', hm₀', hname₀'⟩ := findsCall_chainedCall.move_call hm' hname' hoverlooks []
  have hstart : statusEdit method (.between [] (callText name status ++ (callText name' payload ++ []))) =
      some (.replace n new) ↔ _ := statusEdit_at hm₀ hname₀ hs hm₀' hname₀' hp
  rw [List.append_nil] at hstart
  rw [List.append_assoc, statusEdit_at hm hname hs hm' hname' hp,
    part_method_eq point rfl hm' hm₀' (hname₀'.trans hname'.symm ▸ List.suffix_refl _)]
  exact hstart.symm

theorem statusEdit_editsCalls (method : ResponseMethod) :
    EditsCalls (statusEdit method) StatusAt statusCall where
  opens := findsCall_statusCall.opens
  ne_nil := by
    rintro front _ rest ⟨_, answer, rfl, ⟨_, name, inner, -, -, rfl, -⟩, -⟩
    simp [callText]
  unique := by
    rintro front _ rest _ rest' ⟨status, answer, rfl, hs, ha⟩ ⟨status', answer', rfl, hs', ha'⟩ heq
    rw [List.append_assoc, List.append_assoc] at heq
    obtain rfl := hs.unique findsCall_statusCall hs' heq
    rw [List.append_cancel_left_eq] at heq
    rw [ha.unique findsCall_chainedCall ha' heq]
  none_iff := Option.map_eq_none_iff
  keep {c n} h := by
    obtain ⟨m, hm, rfl⟩ := exists_of_statusEdit_keep h
    obtain ⟨_, -, -, hl⟩ := rest_eq_of_text hm rfl
    exact ⟨m, hm, hl⟩
  replace_iff {front back n new} := by
    constructor
    · intro h
      obtain ⟨m, name, status, m', name', payload, rest, hm, hname, rfl, hs, hm', hname', hp, -, rfl, -⟩ :=
        statusEdit_eq_replace_iff.1 h
      rw [← List.append_assoc] at h ⊢
      have hat : StatusAt front (callText name status ++ callText name' payload) rest :=
        ⟨_, _, rfl, ⟨m, name, status, hm, hname, rfl, hs⟩, ⟨m', name', payload, hm', hname', rfl, hp⟩⟩
      exact ⟨_, rest, rfl, rfl, hat, hat.statusEdit_iff.1 h⟩
    · rintro ⟨call, rest, rfl, rfl, hat, h⟩
      exact hat.statusEdit_iff.2 h
  within {front s back m n new} hm hs h := by
    obtain ⟨m₁, name, status, m', name', payload, rest, hm₁, hname, rfl, hstatus, hm', hname', hp, hmethod,
      rfl, rfl⟩ := statusEdit_eq_replace_iff.1 h
    have htext := text_within hm hs hm₁ (findsCall_statusCall.opens hm) (findsCall_statusCall.opens hm₁)
    have hcall : callText (s ++ name) status = s ++ callText name status := by
      simp only [callText, List.append_assoc]
    refine statusEdit_eq_replace_iff.2 ⟨m, s ++ name, status, m', name', payload, rest, hm,
      name_of_within htext hname, ?_, hstatus, ?_, hname', hp, hmethod, ?_, rfl⟩
    · rw [hcall, List.append_assoc]
    · rwa [hcall, ← List.append_assoc]
    · rw [hcall, List.append_assoc, List.length_append, List.length_append, List.length_append]

/-! Actions that convert calls. -/

/-- The pattern by which an action finds the calls that it converts; none if it does not look at whole
calls. -/
def Action.callPattern? : Action → Option Pattern
  | substitute _ _ => none
  | document => some documentCall
  | filter => some filterCall
  | statusResponse _ => some statusCall
  | response _ => some responseCall

/-- A whole call that an action finds at a place. -/
def Action.CallAt : Action → (front call rest : Text) → Prop
  | substitute _ _ => fun _ _ _ => False
  | document => ClosedCall documentCall
  | filter => ClosedCall filterCall
  | statusResponse _ => StatusAt
  | response _ => ClosedCall responseCall

/-- What an action makes of a call that is read by itself. -/
def Action.Converts (action : Action) (call new : Text) : Prop :=
  action.edit (.start call) = some (.replace call.length new)

theorem Action.Converts.unique {action : Action} {new new' : Text} (h : action.Converts call new)
    (h' : action.Converts call new') : new = new' := by
  have h := h.symm.trans h'
  simpa using h

theorem Action.editsCalls {action : Action} (h : action.callPattern? = some p) :
    EditsCalls action.edit action.CallAt p := by
  cases action with
  | substitute => cases h
  | document =>
    cases h
    exact callEdit_editsCalls (findsCall_of_mem (by simp)) (by decide) fun _ _ _ _ _ _ _ _ => rfl
  | filter =>
    cases h
    exact callEdit_editsCalls (findsCall_of_mem (by simp)) (by decide) fun _ _ _ _ _ _ _ _ => rfl
  | statusResponse method =>
    cases h
    exact statusEdit_editsCalls method
  | response method =>
    cases h
    refine callEdit_editsCalls (findsCall_of_mem (by simp)) (by decide) fun _ _ _ _ _ hm hm' htext => ?_
    rw [convertResponse, convertResponse,
      part_method_eq responseObject rfl hm hm' htext]

end BackendMigration.Adaptation
