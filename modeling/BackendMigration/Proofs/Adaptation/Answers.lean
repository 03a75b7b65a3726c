import BackendMigration.Proofs.Adaptation.Calls
import BackendMigration.Proofs.Pattern.Breaks
import BackendMigration.Proofs.Pattern.Occurs
import BackendMigration.Proofs.Pattern.Spells
import BackendMigration.Proofs.Source.Tokens

/-! The calls that answer a request, as tokens: what an edit of them replaces, and where it finds them. -/
namespace BackendMigration.Adaptation

open Source Text Pattern

/-- The token of a `return` that is taken with a call. -/
def returnTokens (returned : Bool) : List Text := if returned then ["return".toList] else []

/-- The tokens of a call on the response object, up to its arguments. -/
def callTokens (returned : Bool) (method : String) : List Text :=
  returnTokens returned ++ ["res".toList, ['.'], method.toList, ['(']]

/-- A call that answers, with the `return` before it if there is one, and the statement that it
becomes, both as tokens. -/
inductive Answer : List Text → List Text → Prop
  | plain (returned : Bool) (called method : ResponseMethod) (payload : Text) :
      Answer (callTokens returned called.name ++ tokens payload ++ [[')']])
        (tokens (answer method payload))
  | status (returned : Bool) (called method : ResponseMethod) (status payload : Text) :
      Answer (callTokens returned "status" ++ tokens status ++
          [[')'], ['.'], called.name.toList, ['(']] ++ tokens payload ++ [[')']])
        (tokens (answerWithStatus method status payload))

/-! Tokens of calls. -/

variable {t name inner : Text}

theorem tokens_callText (name inner : Text) :
    tokens (callText name inner) = tokens (name ++ ['(']) ++ tokens inner ++ [[')']] := by
  have hclose : tokens [')'] = [[')']] := by decide
  rw [callText_eq, tokens_append (apart_concat (by decide) (by decide) name _),
    tokens_append_cons (s := inner) (by decide) (by decide), hclose, List.append_assoc]

/-- A `return` as far as the call that is returned. -/
def returnWord : Pattern := .concat [.wordEdge, .text "return", .someBlanks]

/-- The response object without a `return`. -/
def bareObject : Pattern := .concat [.wordEdge, .text "res", .point]

/-- A call on an object, up to its arguments. -/
def callOn (object method : Pattern) : Pattern := .concat [object, method, .opening]

theorem takes_responseObject_iff {c c' : Cursor} : Takes responseObject c c' ↔
    (∃ d, Takes returnWord c d ∧ Takes bareObject d c') ∨ Takes bareObject c c' := by
  constructor
  · intro h
    obtain ⟨d, hopt, hbare⟩ := takes_seq_iff.1 h
    rcases takes_optional_iff.1 hopt with hret | rfl
    · exact .inl ⟨d, hret, hbare⟩
    · exact .inr hbare
  · rintro (⟨d, hret, hbare⟩ | hbare)
    · exact .seq (.left hret) hbare
    · exact .seq (.right (.nothing _)) hbare

theorem spells_returnWord (h : returnWord.Spells t) :
    ∃ b, allBlank b = true ∧ b ≠ [] ∧ t = "return".toList ++ b := by
  obtain ⟨_, _, rfl, ⟨_, _, hword, ⟨b, _, hb, rfl, rfl⟩, rfl⟩, rfl⟩ := h
  obtain ⟨hb, hne⟩ := spells_someBlanks.1 hb
  exact ⟨b, hb, hne, by rw [spells_text.1 hword, List.append_nil]; rfl⟩

theorem spells_bareObject (h : bareObject.Spells t) : ∃ b b', allBlank b = true ∧
    allBlank b' = true ∧ t = "res".toList ++ (b ++ '.' :: b') := by
  obtain ⟨_, _, rfl, ⟨_, _, hword, ⟨_, _, hpoint, rfl, rfl⟩, rfl⟩, rfl⟩ := h
  obtain ⟨b, b', hb, hb', rfl⟩ := spells_point.1 hpoint
  exact ⟨b, b', hb, hb', by rw [spells_text.1 hword, List.append_nil]; rfl⟩

theorem tokens_bareCall {b b' b'' : Text} (hb : allBlank b = true) (hb' : allBlank b' = true)
    (hb'' : allBlank b'' = true) (method : Text) :
    tokens ("res".toList ++ (b ++ '.' :: b') ++ (method ++ (b'' ++ ['(']))) =
      ["res".toList, ['.']] ++ tokens method ++ [['(']] := by
  have hobject : tokens "res".toList = ["res".toList] := by decide
  rw [List.append_assoc, List.append_assoc, List.cons_append,
    tokens_append_sign hb (by decide) (by decide) (by decide) (by decide), tokens_blank_append hb',
    tokens_append_sign hb'' (by decide) (by decide) (by decide) (by decide), hobject]
  rfl

theorem tokens_return_append {b : Text} (hb : allBlank b = true) (hne : b ≠ []) (t : Text) :
    tokens ("return".toList ++ b ++ t) = "return".toList :: tokens t := by
  have hword : tokens "return".toList = ["return".toList] := by decide
  rw [tokens_append ((apart_of_allBlank_left hb t).append_left hne _), tokens_append_blank hb, hword]
  rfl

/-- The tokens of a call are its `return`, if there is one, the object, the method and the parenthesis. -/
theorem exists_of_takes_call {method : Pattern} {c c' : Cursor}
    (h : Takes (callOn responseObject method) c c') : ∃ returned name w, method.Spells w ∧
      c.rest = name ++ ['('] ++ c'.rest ∧ c.rest.head? = some 'r' ∧
      tokens (name ++ ['(']) = returnTokens returned ++ ["res".toList, ['.']] ++ tokens w ++ [['(']] ∧
      (returned = false → Takes (callOn bareObject method) c c') := by
  obtain ⟨d, hobject, hmethod⟩ := takes_seq_iff.1 h
  obtain ⟨_, ⟨w, _, hw, ⟨_, _, hopening, rfl, rfl⟩, rfl⟩, hd⟩ := hmethod.spells
  obtain ⟨b'', hb'', rfl⟩ := spells_opening.1 hopening
  rw [List.append_nil] at hd
  rcases takes_responseObject_iff.1 hobject with ⟨e, hreturn, hbare⟩ | hbare
  · obtain ⟨_, hs, hc⟩ := hreturn.spells
    obtain ⟨b₀, hb₀, hne, rfl⟩ := spells_returnWord hs
    obtain ⟨_, hs', he⟩ := hbare.spells
    obtain ⟨b, b', hb, hb', rfl⟩ := spells_bareObject hs'
    have hname := tokens_return_append hb₀ hne
      ("res".toList ++ (b ++ '.' :: b') ++ (w ++ (b'' ++ ['('])))
    rw [tokens_bareCall hb hb' hb''] at hname
    refine ⟨true, "return".toList ++ b₀ ++ ("res".toList ++ (b ++ '.' :: b') ++ (w ++ b'')), w, hw,
      ?_, ?_, ?_, nofun⟩
    · rw [hc, he, hd]
      simp only [List.append_assoc]
    · rw [hc]
      rfl
    · exact (congrArg tokens (by simp only [List.append_assoc])).trans hname
  · obtain ⟨_, hs', hc⟩ := hbare.spells
    obtain ⟨b, b', hb, hb', rfl⟩ := spells_bareObject hs'
    have hname := tokens_bareCall hb hb' hb'' w
    refine ⟨false, "res".toList ++ (b ++ '.' :: b') ++ (w ++ b''), w, hw, ?_, ?_, ?_,
      fun _ => .seq hbare hmethod⟩
    · rw [hc, hd]
      simp only [List.append_assoc]
    · rw [hc]
      rfl
    · exact (congrArg tokens (by simp only [List.append_assoc])).trans hname

/-- A call without a `return` is not taken where there is one in front of it. -/
theorem takes_returned {method : Pattern} {front b back : Text} {c' : Cursor} (hb : allBlank b = true)
    (hf : Apart front "return".toList)
    (h : Takes (callOn bareObject method) (.between (front ++ ("return".toList ++ b)) back) c') :
    Takes (callOn responseObject method) (.between front ("return".toList ++ (b ++ back))) c' := by
  obtain ⟨d, hbare, hmethod⟩ := takes_seq_iff.1 h
  have hne : b ≠ [] := by
    rintro rfl
    obtain ⟨e, hedge, -⟩ := takes_seq_iff.1 hbare
    obtain ⟨_, hs, hr⟩ := hbare.spells
    obtain ⟨b₁, b₂, -, -, rfl⟩ := spells_bareObject hs
    have hlast : (front ++ ("return".toList ++ [])).getLast? = some 'n' := by
      rw [List.getLast?_append_of_ne_nil _ (by decide)]
      rfl
    have hhead : back.head? = some 'r' := congrArg List.head? hr
    have hno : Cursor.isWordEdge (.between (front ++ ("return".toList ++ [])) back) = false := by
      rw [Cursor.isWordEdge, Cursor.between, hlast, hhead]
      rfl
    rw [(takes_wordEdge_iff.1 hedge).1] at hno
    cases hno
  have hedge : Cursor.isWordEdge (.between front ("return".toList ++ (b ++ back))) = true := by
    have hprevious : front.getLast?.any isWord = false := hf.any_isWord (by decide)
    rw [Cursor.isWordEdge, Cursor.between, hprevious]
    rfl
  have hreturn : Takes returnWord (.between front ("return".toList ++ (b ++ back)))
      (.between (front ++ ("return".toList ++ b)) back) := by
    have hblanks := takes_someBlanks hb hne (front ++ "return".toList) back
    rw [List.append_assoc] at hblanks
    exact .seq (.wordEdge hedge) (.seq (takes_text _ _ _) (.seq hblanks (.nothing _)))
  exact .seq (takes_responseObject_iff.2 (.inl ⟨_, hreturn, hbare⟩)) hmethod

/-! What the edits of answers replace. -/

theorem spells_anyMethod (h : anyMethod.Spells t) : ∃ called : ResponseMethod, t = called.name.toList := by
  rcases h with h | h
  · exact ⟨.json, spells_text.1 h⟩
  · exact ⟨.send, spells_text.1 h⟩

theorem tokens_name (called : ResponseMethod) : tokens called.name.toList = [called.name.toList] := by
  cases called <;> decide

theorem tokens_status : tokens "status".toList = ["status".toList] := by decide

/-- The tokens of the answer on what a status call returned, up to its arguments. -/
theorem tokens_chainedCall {m : Match} {c : Cursor} (hm : chainedCall.matchAt? c = some m) :
    ∃ called : ResponseMethod, tokens m.text = [['.'], called.name.toList, ['(']] := by
  obtain ⟨_, _, hpoint, ⟨_, _, hmethod, ⟨_, _, hopening, rfl, rfl⟩, rfl⟩, htext⟩ := spells_of_matchAt? hm
  obtain ⟨b, b', hb, hb', rfl⟩ := spells_point.1 hpoint
  obtain ⟨called, rfl⟩ := spells_anyMethod hmethod
  obtain ⟨b'', hb'', rfl⟩ := spells_opening.1 hopening
  refine ⟨called, ?_⟩
  have h := tokens_append_sign (b := '.') hb (by decide) (by decide) (by decide) (by decide) []
    (b' ++ (called.name.toList ++ (b'' ++ ['('])))
  rw [tokens_blank_append hb', tokens_append_sign hb'' (by decide) (by decide) (by decide) (by decide),
    tokens_name] at h
  rw [htext, List.append_nil, List.append_assoc]
  exact h

/-- A match of a call on the response object. -/
theorem exists_of_match {method : Pattern} {c : Cursor} {m : Match}
    (hm : (callOn responseObject method).matchAt? c = some m) : ∃ returned name w, method.Spells w ∧
      m.text = name ++ ['('] ∧ c.rest.head? = some 'r' ∧
      tokens m.text = returnTokens returned ++ ["res".toList, ['.']] ++ tokens w ++ [['(']] ∧
      (returned = false → ∃ c', Takes (callOn bareObject method) c c') := by
  obtain ⟨c', ht, -, -, hr, -⟩ := takes_of_matchAt? hm
  obtain ⟨returned, name, w, hw, hname, hhead, htokens, hbare⟩ := exists_of_takes_call ht
  rw [hr, List.append_cancel_right_eq] at hname
  exact ⟨returned, name, w, hw, hname, hhead, hname ▸ htokens, fun h => ⟨c', hbare h⟩⟩

/-- What an edit makes of an answer at a place. -/
structure ReplacesAt (edit : Cursor → Option Edit) (c : Cursor) (old rest new : Text) : Prop where
  rest_eq : c.rest = old ++ rest
  isBreak : c.IsBreak
  old_eq : ∃ s, old = 'r' :: (s ++ [')'])
  new_eq : ∃ s, new = 'r' :: (s ++ [')'])
  answer : Answer (tokens old) (tokens new)
  /-- Without its `return` no answer is replaced. -/
  takes_return : (tokens old).head? ≠ some "return".toList → ∀ front b, allBlank b = true →
    Apart front "return".toList → c = .between (front ++ ("return".toList ++ b)) (old ++ rest) →
      edit (.between front ("return".toList ++ (b ++ (old ++ rest)))) ≠ none

/-- An edit replaces answers only, and what it keeps ends with a parenthesis. -/
structure EditsAnswers (edit : Cursor → Option Edit) : Prop where
  keep : ∀ c n, edit c = some (.keep n) → ∃ name rest, c.rest = name ++ '(' :: rest ∧ n = name.length + 1
  replace : ∀ c n new, edit c = some (.replace n new) →
    ∃ old rest, n = old.length ∧ ReplacesAt edit c old rest new

theorem exists_of_callEdit_keep {p : Pattern} {convert : List Text → Match → Option Text} {c : Cursor}
    {n : Nat} (h : callEdit p convert c = some (.keep n)) :
    ∃ m, p.matchAt? c = some m ∧ n = m.stop - m.start := by
  obtain ⟨m, hm, he⟩ := Option.map_eq_some_iff.1 h
  refine ⟨m, hm, ?_⟩
  dsimp only at he
  split at he
  · exact (Edit.keep.inj he).symm
  · split at he
    · exact (Edit.keep.inj he).symm
    · cases he

theorem exists_of_statusEdit_keep {method : ResponseMethod} {c : Cursor} {n : Nat}
    (h : statusEdit method c = some (.keep n)) :
    ∃ m, statusCall.matchAt? c = some m ∧ n = m.stop - m.start := by
  obtain ⟨m, hm, he⟩ := Option.map_eq_some_iff.1 h
  refine ⟨m, hm, ?_⟩
  dsimp only at he
  split at he
  · exact (Edit.keep.inj he).symm
  · split at he
    · exact (Edit.keep.inj he).symm
    · split at he
      · exact (Edit.keep.inj he).symm
      · split at he
        · exact (Edit.keep.inj he).symm
        · cases he

theorem keep_of_match {method : Pattern} {c : Cursor} {m : Match}
    (hm : (callOn responseObject method).matchAt? c = some m) :
    ∃ name rest, c.rest = name ++ '(' :: rest ∧ m.stop - m.start = name.length + 1 := by
  obtain ⟨_, name, _, -, hname, -⟩ := exists_of_match hm
  obtain ⟨c', -, -, -, hr, hl⟩ := takes_of_matchAt? hm
  refine ⟨name, c'.rest, ?_, ?_⟩
  · rw [hr, hname, List.append_assoc]
    rfl
  · rw [hl, hname, List.length_append, List.length_singleton]
    omega

/-! The texts around the payload and the status. -/

def payloadFront : ResponseMethod → Text
  | .json => "return new Response(JSON.stringify(".toList
  | .send => "return new Response(".toList

def payloadBack : ResponseMethod → Text
  | .json => "), \x7b headers: ".toList ++ jsonHeaders ++ " \x7d)".toList
  | .send => ")".toList

def statusFront : ResponseMethod → Text
  | .json => "), \x7b status: ".toList
  | .send => ", \x7b status: ".toList

def statusBack : ResponseMethod → Text
  | .json => ", headers: ".toList ++ jsonHeaders ++ " \x7d)".toList
  | .send => " \x7d)".toList

theorem answer_eq (method : ResponseMethod) (payload : Text) :
    answer method payload = payloadFront method ++ payload ++ payloadBack method := by
  unfold answer payloadFront payloadBack
  cases method with
  | json => simp only [List.append_assoc]
  | send => simp only

theorem answerWithStatus_eq (method : ResponseMethod) (status payload : Text) :
    answerWithStatus method status payload =
      payloadFront method ++ payload ++ (statusFront method ++ status ++ statusBack method) := by
  unfold answerWithStatus payloadFront statusFront statusBack
  cases method with
  | json => simp only [List.append_assoc]
  | send => simp only [List.append_assoc]

theorem exists_eq_of_ends {t : Text} (hhead : t.head? = some 'r') (hlast : t.getLast? = some ')') :
    ∃ s, t = 'r' :: (s ++ [')']) := by
  obtain ⟨s, rfl⟩ := List.getLast?_eq_some_iff.1 hlast
  cases s with
  | nil => cases hhead
  | cons a s =>
    obtain rfl := Option.some.inj hhead
    exact ⟨s, rfl⟩

theorem exists_eq_answer (method : ResponseMethod) (payload : Text) :
    ∃ s, answer method payload = 'r' :: (s ++ [')']) := by
  rw [answer_eq]
  apply exists_eq_of_ends
  · cases method <;> rfl
  · rw [List.getLast?_append_of_ne_nil]
    · cases method <;> decide
    · cases method <;> decide

theorem exists_eq_answerWithStatus (method : ResponseMethod) (status payload : Text) :
    ∃ s, answerWithStatus method status payload = 'r' :: (s ++ [')']) := by
  have hback : statusBack method ≠ [] ∧ (statusBack method).getLast? = some ')' := by
    cases method <;> decide
  rw [answerWithStatus_eq, ← List.append_assoc]
  apply exists_eq_of_ends
  · cases method <;> rfl
  · rw [List.getLast?_append_of_ne_nil _ hback.1, hback.2]

/-- What is replaced where a call on the response object is found. -/
theorem replacesAt_of_match {edit : Cursor → Option Edit} {method : Pattern} {c : Cursor} {m : Match}
    {old rest new : Text} (hm : (callOn responseObject method).matchAt? c = some m)
    (hbreak : c.IsBreak)
    (hedit : ∀ d d', Takes (callOn responseObject method) d d' → edit d ≠ none)
    (hr : c.rest = old ++ rest) (hlast : old.getLast? = some ')')
    (hnew : ∃ s, new = 'r' :: (s ++ [')'])) (hfront : tokens m.text <+: tokens old)
    (ha : Answer (tokens old) (tokens new)) : ReplacesAt edit c old rest new := by
  obtain ⟨returned, _, w, -, -, hhead, htokens, hbare⟩ := exists_of_match hm
  refine ⟨hr, hbreak, exists_eq_of_ends ?_ hlast, hnew, ha, ?_⟩
  · have hne : old ≠ [] := by
      rintro rfl
      cases hlast
    rwa [hr, List.head?_append_of_ne_nil _ hne] at hhead
  · intro hno front b hb hf hc
    cases returned with
    | true =>
      obtain ⟨ts, hts⟩ := hfront
      rw [htokens] at hts
      exact absurd (congrArg List.head? hts).symm hno
    | false =>
      obtain ⟨d, hd⟩ := hbare rfl
      rw [hc] at hd
      exact hedit _ _ (takes_returned hb hf hd)

theorem map_matchAt?_ne_none {p : Pattern} {f : Match → Edit} {c c' : Cursor} (h : Takes p c c') :
    (p.matchAt? c).map f ≠ none := by
  obtain ⟨m, hm⟩ := Option.isSome_iff_exists.1 (isSome_matchAt?_iff.2 ⟨c', h⟩)
  simp [hm]

theorem getLast?_callText (name inner : Text) : (callText name inner).getLast? = some ')' := by
  rw [callText_eq_concat, List.getLast?_concat]

theorem responseEdit_answers (method : ResponseMethod) :
    EditsAnswers (callEdit responseCall (convertResponse method)) where
  keep c n h := by
    obtain ⟨m, hm, rfl⟩ := exists_of_callEdit_keep h
    exact keep_of_match hm
  replace c n new h := by
    obtain ⟨m, args, hm, ha, hnew, rfl⟩ := exists_of_callEdit h
    obtain ⟨name, rest, hname, hr, hn, -⟩ := text_of_call (by decide) hm ha
    obtain ⟨returned, _, w, hw, -, -, htokens, -⟩ := exists_of_match hm
    obtain ⟨called, rfl⟩ := spells_anyMethod hw
    have hold := tokens_callText name args.inner
    rw [← hname] at hold
    unfold convertResponse at hnew
    split at hnew
    · cases hnew
      refine ⟨callText name args.inner, rest, hn, replacesAt_of_match hm
        (isBreak_of_matchAt? hm (by decide)) (fun _ _ => map_matchAt?_ne_none) hr
        (getLast?_callText _ _) (exists_eq_answer _ _) ?_ ?_⟩
      · rw [hold, List.append_assoc]
        exact List.prefix_append _ _
      · rw [hold, htokens, tokens_name, ← tokens_join_argumentTexts args.inner]
        simpa only [callTokens, List.append_assoc, List.cons_append, List.nil_append] using
          Answer.plain returned called method (join ", ".toList (argumentTexts args.inner))
    · cases hnew

theorem statusEdit_answers (method : ResponseMethod) : EditsAnswers (statusEdit method) where
  keep c n h := by
    obtain ⟨m, hm, rfl⟩ := exists_of_statusEdit_keep h
    exact keep_of_match hm
  replace c n new h := by
    obtain ⟨m, c', m', name, status, name', payload, rest, hm, hname, hm', hname', hr, hn, -, -, rfl⟩ :=
      text_of_statusEdit h
    obtain ⟨returned, _, w, hw, -, -, htokens, -⟩ := exists_of_match hm
    obtain ⟨called, hchained⟩ := tokens_chainedCall hm'
    obtain rfl := spells_text.1 hw
    have hold : tokens (callText name status ++ callText name' payload) =
        tokens m.text ++ tokens status ++ [[')']] ++ (tokens m'.text ++ tokens payload ++ [[')']]) := by
      have hclosed : Apart (callText name status) (callText name' payload) := by
        rw [callText_eq_concat name status]
        exact apart_concat (by decide) (by decide) _ _
      rw [tokens_append hclosed, tokens_callText, tokens_callText, hname, hname']
    refine ⟨callText name status ++ callText name' payload, rest, hn, replacesAt_of_match hm
      (isBreak_of_matchAt? hm (by decide)) (fun _ _ => map_matchAt?_ne_none) hr ?_
      (exists_eq_answerWithStatus _ _ _) ?_ ?_⟩
    · rw [List.getLast?_append_of_ne_nil _ (by simp [callText]), getLast?_callText]
    · rw [hold, List.append_assoc, List.append_assoc]
      exact List.prefix_append _ _
    · rw [hold, htokens, hchained, tokens_status, ← tokens_strip status, ← tokens_strip payload]
      simpa only [callTokens, List.append_assoc, List.cons_append, List.nil_append] using
        Answer.status returned called method (strip status) (strip payload)

end BackendMigration.Adaptation
