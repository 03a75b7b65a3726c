import BackendMigration.Adaptation.Body
import BackendMigration.Proofs.Adaptation.Calls
import BackendMigration.Proofs.Pattern.Breaks
import BackendMigration.Proofs.Text.Occurrence

/-! Adapting a body loses no word that only arguments hold. -/
namespace BackendMigration.Adaptation

open Source Text

/-- The patterns by which an action finds what it replaces. -/
def Action.patterns : Action → List Pattern
  | substitute p _ => [p]
  | document => [documentCall]
  | filter => [filterCall]
  | statusResponse _ => [statusCall, chainedCall]
  | response _ => [responseCall]

/-- A word without white space of which no pattern takes one character, and that is part of no
operator. -/
structure Foreign (w : Text) : Prop where
  ne_nil : w ≠ []
  isWord : ∀ a ∈ w, isWord a = true
  solid : ∀ a ∈ w, isBlank a = false
  untaken : ∃ a ∈ w, ∀ rule ∈ Rule.all, ∀ p ∈ rule.action.patterns, p.allows a = false
  operators : ∀ f ∈ filterMethods, occursIn w f.1.toList = false

/-- What an edit replaces stands between words, and a word in it stays. -/
def KeepsWord (w : Text) (edit : Cursor → Option Edit) : Prop :=
  ∀ c n new, edit c = some (.replace n new) → c.IsBreak ∧ (c.advance (n - 1 + 1)).IsBreak ∧
    (occursIn w (c.rest.take (n - 1 + 1)) = true → occursIn w new = true)

theorem occursIn_text_of_matchAt? {w : Text} {p : Pattern} (hp : ∃ a ∈ w, p.allows a = false) {c : Cursor}
    {m : Match} (hm : p.matchAt? c = some m) : occursIn w m.text = false := by
  obtain ⟨a, ha, hno⟩ := hp
  rw [← Bool.not_eq_true, occursIn_iff]
  intro h
  have := Pattern.allows_of_mem_matchAt? hm a (h.subset ha)
  simp [hno] at this

namespace Foreign

variable {w : Text} (hw : Foreign w)
include hw

theorem not_isQuote : ∀ a ∈ w, isQuote a = false := by
  intro a ha
  have hquotes : ['\'', '"', '`'].all (fun q => !Text.isWord q) = true := by decide
  by_contra h
  have hq : a ∈ ['\'', '"', '`'] := by
    rw [Bool.not_eq_false] at h
    simpa [isQuote, or_assoc] using h
  have := List.all_eq_true.1 hquotes a hq
  simp [hw.isWord a ha] at this

theorem not_mem {mark : Char} (h : Text.isWord mark = false) : mark ∉ w := by
  intro hm
  have := hw.isWord mark hm
  simp [h] at this

/-- A word does not go on across a break. -/
theorem occursIn_append_of_isBreak {s t : Text}
    (h : ∀ a ∈ s.getLast?, ∀ b ∈ t.head?, Text.isWord a = true → Text.isWord b = false) :
    occursIn w (s ++ t) = (occursIn w s || occursIn w t) := by
  apply occursIn_append
  intro a ha b hb hab
  have hword := hw.isWord a (hab.subset (by simp))
  have := hw.isWord b (hab.subset (by simp))
  simp [h a ha b hb hword] at this

/-- The run that was kept last and what follows have the word if they had it before the edits. -/
theorem occursIn_segmentsFrom {edit : Cursor → Option Edit} (he : KeepsWord w edit)
    (dropped copied : Nat) (previous : Option Char) (offset : Nat) (t run : Text)
    (hrun : run = [] ∨ dropped = 0 ∧ run.getLast? = previous)
    (h : occursIn w (run ++ t.drop dropped) = true) :
    occursIn w (run ++ (segmentsFrom edit dropped copied previous offset t).flatMap
      Segment.after) = true := by
  induction t generalizing dropped copied previous offset run with
  | nil => simpa [segmentsFrom] using h
  | cons c r ih =>
    cases dropped with
    | succ dropped =>
      obtain rfl : run = [] := by simpa using hrun
      exact ih dropped copied (some c) (offset + 1) [] (.inl rfl) h
    | zero =>
      have keep (copied : Nat) : occursIn w (run ++ c ::
          (segmentsFrom edit 0 copied (some c) (offset + 1) r).flatMap Segment.after) = true := by
        have := ih 0 copied (some c) (offset + 1) (run ++ [c]) (.inr ⟨rfl, by simp⟩) (by simpa using h)
        simpa using this
      cases copied with
      | succ copied => exact keep copied
      | zero =>
        unfold segmentsFrom
        split
        · rename_i n new hedit
          obtain ⟨hbreak, hend, hnew⟩ := he _ n new hedit
          have hrest : r.drop (n - 1) = (c :: r).drop (n - 1 + 1) := rfl
          have hleft : ∀ a ∈ run.getLast?, ∀ b ∈ (c :: r).head?,
              Text.isWord a = true → Text.isWord b = false := by
            rcases hrun with rfl | ⟨-, hlast⟩
            · simp
            · rw [hlast]
              exact hbreak
          have hright : ∀ a ∈ ((c :: r).take (n - 1 + 1)).getLast?,
              ∀ b ∈ ((c :: r).drop (n - 1 + 1)).head?,
                Text.isWord a = true → Text.isWord b = false := by
            intro a ha b hb
            refine hend a ?_ b ?_
            · rw [Cursor.previous_advance, Option.mem_def.1 ha]
              rfl
            · rwa [Cursor.rest_advance]
          rw [List.drop_zero, hw.occursIn_append_of_isBreak hleft,
            ← List.take_append_drop (n - 1 + 1) (c :: r),
            hw.occursIn_append_of_isBreak hright, Bool.or_eq_true, Bool.or_eq_true] at h
          rw [List.flatMap_cons, Segment.after]
          rcases h with h | h | h
          · exact occursIn_of_isInfix h (List.prefix_append _ _).isInfix
          · exact occursIn_of_isInfix (hnew h) (List.infix_append' _ _ _)
          · have := ih (n - 1) 0 (some c) (offset + 1) [] (.inl rfl) h
            rw [← List.append_assoc]
            exact occursIn_of_isInfix this (List.suffix_append _ _).isInfix
        · rename_i n _
          exact keep (n - 1)
        · exact keep 0

theorem occursIn_strip (t : Text) : occursIn w (strip t) = occursIn w t :=
  occursIn_trim hw.ne_nil hw.solid t

/-- Splitting an argument text loses no word. -/
theorem any_occursIn_splitTextsFrom (quote : Option Char) (depth : Int) (current t : Text) :
    (splitTextsFrom quote depth current t).any (occursIn w) =
      occursIn w (current.reverse ++ t) := by
  have hcomma : ',' ∉ w := hw.not_mem (by decide)
  fun_induction splitTextsFrom quote depth current t with
  | case1 => simp [hw.occursIn_strip]
  | case6 depth current c r _ _ _ h ih =>
    have hc : c :: r = [','] ++ r := by rw [h.1]; rfl
    have hfixed : occursIn w [','] = false := by
      rw [← List.nil_append [','], occursIn_concat hw.ne_nil hcomma, occursIn_nil hw.ne_nil]
    have hlast : ∀ a ∈ [','].getLast?, a ∉ w.dropLast := not_mem_dropLast_of_concat hcomma []
    have hhead : ∀ b ∈ [','].head?, b ∉ w.tail := by
      simpa using fun h => hcomma (List.mem_of_mem_tail h)
    rw [List.any_cons, ih, hw.occursIn_strip, hc,
      occursIn_append_fixed_append (by simp) ⟨hfixed, hlast⟩ hhead]
    rfl
  | _ => simp_all

theorem any_occursIn_argumentTexts (t : Text) :
    (argumentTexts t).any (occursIn w) = occursIn w t := by
  have h := hw.any_occursIn_splitTextsFrom none 0 [] t
  unfold argumentTexts
  split
  · rename_i he
    rw [he] at h
    simpa [occursIn_nil hw.ne_nil] using h
  · simpa using h

omit hw in
theorem substitution_keepsWord {p : Pattern} (hl : 0 < p.minLength)
    (hb : p.beginsApart false = true) (he : p.endsApart false = true)
    (hp : ∃ a ∈ w, p.allows a = false) (new : Text) : KeepsWord w (substitution p new) := by
  intro c n t h
  obtain ⟨m, hm, h⟩ := Option.map_eq_some_iff.1 h
  obtain ⟨rfl, rfl⟩ := Edit.replace.inj h
  obtain ⟨c', ht, hs, hc', hr, hlength⟩ := Pattern.takes_of_matchAt? hm
  have hpos := ht.minLength_le
  have hn : m.stop - m.start - 1 + 1 = m.stop - m.start := by omega
  have htext : c.rest.take (m.stop - m.start) = m.text := by
    rw [hr, hlength, Nat.add_sub_cancel_left, List.take_left]
  rw [hn, htext, occursIn_text_of_matchAt? hp hm]
  exact ⟨Pattern.isBreak_of_matchAt? hm hb, Pattern.isBreak_end_of_matchAt? hm he, by simp⟩

/-- A word in a call is in its arguments. -/
theorem occursIn_callText {name : Text} (hname : occursIn w (name ++ ['(']) = false)
    (inner : Text) : occursIn w (callText name inner) = occursIn w inner := by
  have hopening : '(' ∉ w := hw.not_mem (by decide)
  have hclosing : ')' ∉ w := hw.not_mem (by decide)
  rw [callText_eq, occursIn_fixed_append ⟨hname, not_mem_dropLast_of_concat hopening name⟩,
    occursIn_concat hw.ne_nil hclosing]

end Foreign

/-- A word does not go on after a call. -/
theorem isBreak_advance_of_concat {c : Cursor} {t rest : Text} (h : c.rest = t ++ ')' :: rest) :
    (c.advance (t.length + 1)).IsBreak := by
  intro a ha b hb hword
  have htake : c.rest.take (t.length + 1) = t ++ [')'] := by
    have : t ++ ')' :: rest = t ++ [')'] ++ rest := by simp
    rw [h, this, List.take_left' (by simp)]
  rw [Cursor.previous_advance, htake, List.getLast?_concat, Option.mem_def, Option.some_or,
    Option.some.injEq] at ha
  subst ha
  exact absurd hword (by decide)

theorem Foreign.callEdit_keepsWord {w : Text} (hw : Foreign w) {p : Pattern}
    {convert : List Text → Match → Option Text} (hl : 0 < p.minLength)
    (hb : p.beginsApart false = true) (hp : ∃ a ∈ w, p.allows a = false)
    (hc : ∀ inner m new, convert (argumentTexts inner) m = some new → occursIn w inner = true →
      occursIn w new = true) : KeepsWord w (callEdit p convert) := by
  intro c n new h
  obtain ⟨m, args, hm, ha, hnew, rfl⟩ := exists_of_callEdit h
  obtain ⟨name, rest, hname, hr, hlength, -⟩ := text_of_call hl hm ha
  have hcall := callText_eq_concat name args.inner
  have hrest : c.rest = (name ++ '(' :: args.inner) ++ ')' :: rest := by
    rw [hr, hcall]
    simp
  have hn : m.stop - m.start - 1 + args.length - 1 + 1 = (callText name args.inner).length := by
    rw [hlength, hcall, List.length_append, List.length_singleton]
    omega
  have hend : (c.advance (callText name args.inner).length).IsBreak := by
    rw [hcall, List.length_append, List.length_singleton]
    exact isBreak_advance_of_concat hrest
  rw [hn]
  refine ⟨Pattern.isBreak_of_matchAt? hm hb, hend, fun h => ?_⟩
  rw [hr, List.take_left, hw.occursIn_callText (hname ▸ occursIn_text_of_matchAt? hp hm)] at h
  exact hc args.inner m new hnew h

theorem Foreign.convertDocument_keepsWord {w : Text} (hw : Foreign w) {inner new : Text} {m : Match}
    (h : convertDocument (argumentTexts inner) m = some new) (hi : occursIn w inner = true) :
    occursIn w new = true := by
  rw [← hw.any_occursIn_argumentTexts] at hi
  unfold convertDocument at h
  split at h
  · rename_i id he
    split at h
    · cases h
    · cases h
      rw [he, List.any_cons, List.any_nil, Bool.or_false] at hi
      exact occursIn_of_isInfix hi (List.infix_append _ _ _)
  · cases h

theorem Foreign.convertFilter_keepsWord {w : Text} (hw : Foreign w) {inner new : Text} {m : Match}
    (h : convertFilter (argumentTexts inner) m = some new) (hi : occursIn w inner = true) :
    occursIn w new = true := by
  rw [← hw.any_occursIn_argumentTexts] at hi
  unfold convertFilter at h
  split at h
  · rename_i field operator value he
    obtain ⟨method, hl, rfl⟩ := Option.map_eq_some_iff.1 h
    have hoperator : occursIn w operator = false := by
      obtain ⟨before, after, hf, -⟩ := List.lookup_eq_some_iff.1 hl
      have := hw.operators (String.ofList (trim isQuote operator), method) (by simp [hf])
      rwa [String.toList_ofList, occursIn_trim hw.ne_nil hw.not_isQuote] at this
    rw [he, List.any_cons, List.any_cons, List.any_cons, hoperator] at hi
    have hi : occursIn w field = true ∨ occursIn w value = true := by simpa using hi
    rcases hi with hi | hi
    · refine occursIn_of_isInfix hi ?_
      exact ⟨".".toList ++ method.toList ++ "(".toList, ", ".toList ++ value ++ ")".toList, by simp⟩
    · refine occursIn_of_isInfix hi ?_
      exact ⟨".".toList ++ method.toList ++ "(".toList ++ field ++ ", ".toList, ")".toList, by simp⟩
  · cases h

theorem infix_answer (method : ResponseMethod) (payload : Text) :
    payload <:+: answer method payload := by
  unfold answer
  split
  · rw [List.append_assoc, List.append_assoc, List.append_assoc]
    apply List.infix_append'
  · apply List.infix_append

theorem infix_answerWithStatus (method : ResponseMethod) (status payload : Text) :
    status <:+: answerWithStatus method status payload ∧
      payload <:+: answerWithStatus method status payload := by
  unfold answerWithStatus
  split
  · simp only [List.append_assoc]
    constructor
    · rw [← List.append_assoc, ← List.append_assoc _ _ (status ++ _)]
      apply List.infix_append'
    · apply List.infix_append'
  · simp only [List.append_assoc]
    constructor
    · rw [← List.append_assoc, ← List.append_assoc _ _ (status ++ _)]
      apply List.infix_append'
    · apply List.infix_append'

theorem Foreign.convertResponse_keepsWord {w : Text} (hw : Foreign w) {method : ResponseMethod}
    {inner new : Text} {m : Match}
    (h : convertResponse method (argumentTexts inner) m = some new)
    (hi : occursIn w inner = true) : occursIn w new = true := by
  rw [← hw.any_occursIn_argumentTexts, List.any_eq_true] at hi
  obtain ⟨part, hpart, hi⟩ := hi
  unfold convertResponse at h
  split at h
  · cases h
    exact occursIn_of_isInfix hi ((infix_join _ hpart).trans (infix_answer _ _))
  · cases h

/-- The status and the payload of an answer both come into the statement. -/
theorem Foreign.statusEdit_keepsWord {w : Text} (hw : Foreign w) (method : ResponseMethod)
    (hp : ∀ p ∈ [statusCall, chainedCall], ∃ a ∈ w, p.allows a = false) :
    KeepsWord w (statusEdit method) := by
  intro c n new h
  obtain ⟨m, c', m', name, status, name', payload, rest, hm, hname, hm', hname', hr, rfl, -, -, rfl⟩ :=
    text_of_statusEdit h
  obtain ⟨before, hcalls⟩ : ∃ before,
      callText name status ++ callText name' payload = before ++ [')'] :=
    ⟨callText name status ++ (name' ++ '(' :: payload),
      by rw [callText_eq_concat name', ← List.append_assoc]⟩
  have hrest : c.rest = before ++ ')' :: rest := by
    rw [hr, hcalls]
    simp
  have hn : (callText name status ++ callText name' payload).length - 1 + 1 = before.length + 1 := by
    rw [hcalls, List.length_append, List.length_singleton, Nat.add_sub_cancel]
  have htake : c.rest.take (before.length + 1) = callText name status ++ callText name' payload := by
    rw [hr, hcalls, List.take_left' (by simp)]
  have hboth : occursIn w (callText name status ++ callText name' payload) =
      (occursIn w status || occursIn w payload) := by
    have hclosing : ')' ∉ w := hw.not_mem (by decide)
    have hname : occursIn w (name ++ ['(']) = false :=
      hname ▸ occursIn_text_of_matchAt? (hp _ (by simp)) hm
    have hname' : occursIn w (name' ++ ['(']) = false :=
      hname' ▸ occursIn_text_of_matchAt? (hp _ (by simp)) hm'
    have hlast : ∀ a ∈ (callText name status).getLast?, a ∉ w.dropLast := by
      rw [callText_eq_concat]
      exact not_mem_dropLast_of_concat hclosing (name ++ '(' :: status)
    rw [occursIn_append_of_getLast? hlast, hw.occursIn_callText hname,
      hw.occursIn_callText hname']
  rw [hn]
  refine ⟨Pattern.isBreak_of_matchAt? hm (by decide),
    isBreak_advance_of_concat hrest, fun h => ?_⟩
  rw [htake, hboth, Bool.or_eq_true] at h
  obtain ⟨hs, hpay⟩ := infix_answerWithStatus method (strip status) (strip payload)
  rcases h with h | h
  · exact occursIn_of_isInfix ((hw.occursIn_strip _).trans h) hs
  · exact occursIn_of_isInfix ((hw.occursIn_strip _).trans h) hpay

/-- The patterns of substitutions match between words. -/
def Action.Separate : Action → Prop
  | substitute p _ => 0 < p.minLength ∧ p.beginsApart false = true ∧ p.endsApart false = true
  | _ => True

instance : DecidablePred Action.Separate := fun action =>
  match action with
  | .substitute p _ => inferInstanceAs (Decidable (0 < p.minLength ∧
      p.beginsApart false = true ∧ p.endsApart false = true))
  | .document | .filter | .statusResponse _ | .response _ => inferInstanceAs (Decidable True)

theorem Rule.action_separate {rule : Rule} (h : rule ∈ Rule.all) : rule.action.Separate := by
  have all : ∀ rule ∈ Rule.all, rule.action.Separate := by decide
  exact all rule h

theorem Foreign.edit_keepsWord {w : Text} (hw : Foreign w) {rule : Rule} (h : rule ∈ Rule.all) :
    KeepsWord w rule.action.edit := by
  have hseparate := Rule.action_separate h
  have hp : ∀ p ∈ rule.action.patterns, ∃ a ∈ w, p.allows a = false := by
    obtain ⟨a, ha, hno⟩ := hw.untaken
    exact fun p hp => ⟨a, ha, hno rule h p hp⟩
  cases haction : rule.action with
  | substitute p new =>
    rw [haction] at hseparate hp
    obtain ⟨hl, hb, he⟩ := hseparate
    exact substitution_keepsWord hl hb he (hp p (by simp [Action.patterns])) new.toList
  | document =>
    rw [haction] at hp
    exact hw.callEdit_keepsWord (by decide) (by decide) (hp _ (by simp [Action.patterns]))
      fun _ _ _ => hw.convertDocument_keepsWord
  | filter =>
    rw [haction] at hp
    exact hw.callEdit_keepsWord (by decide) (by decide) (hp _ (by simp [Action.patterns]))
      fun _ _ _ => hw.convertFilter_keepsWord
  | statusResponse method =>
    rw [haction] at hp
    exact hw.statusEdit_keepsWord method hp
  | response method =>
    rw [haction] at hp
    exact hw.callEdit_keepsWord (by decide) (by decide) (hp _ (by simp [Action.patterns]))
      fun _ _ _ => hw.convertResponse_keepsWord

/-- No rule loses the word. -/
theorem Foreign.occursIn_apply {w : Text} (hw : Foreign w) {rule : Rule} (h : rule ∈ Rule.all)
    {t : Text} (ht : occursIn w t = true) : occursIn w (rule.apply t) = true :=
  hw.occursIn_segmentsFrom (hw.edit_keepsWord h) 0 0 none 0 t [] (.inl rfl) ht

theorem Foreign.occursIn_applyAll {w : Text} (hw : Foreign w) {rules : List Rule}
    (hr : ∀ rule ∈ rules, rule ∈ Rule.all) {t : Text} (ht : occursIn w t = true) :
    occursIn w (applyAll rules t) = true := by
  induction rules generalizing t with
  | nil => exact ht
  | cons rule rest ih =>
    exact ih (fun r h => hr r (List.mem_cons_of_mem _ h))
      (hw.occursIn_apply (hr rule List.mem_cons_self) ht)

/-- Where every replacement has a word, the text has it too, unless nothing is replaced. -/
theorem occursIn_edited_or {w : Text} {edit : Cursor → Option Edit}
    (he : ∀ c n new, edit c = some (.replace n new) → occursIn w new = true)
    (dropped copied : Nat) (previous : Option Char) (offset : Nat) (t : Text) :
    (segmentsFrom edit dropped copied previous offset t).flatMap Segment.after = t.drop dropped ∨
      occursIn w ((segmentsFrom edit dropped copied previous offset t).flatMap
        Segment.after) = true := by
  induction t generalizing dropped copied previous offset with
  | nil => simp [segmentsFrom]
  | cons c r ih =>
    cases dropped with
    | succ dropped => exact ih dropped copied (some c) (offset + 1)
    | zero =>
      have keep (copied : Nat) : c :: (segmentsFrom edit 0 copied (some c) (offset + 1) r).flatMap
            Segment.after = c :: r ∨
          occursIn w (c :: (segmentsFrom edit 0 copied (some c) (offset + 1) r).flatMap
            Segment.after) = true := by
        rcases ih 0 copied (some c) (offset + 1) with h | h
        · exact .inl (by rw [h, List.drop_zero])
        · exact .inr (occursIn_of_isInfix h (List.suffix_cons _ _).isInfix)
      cases copied with
      | succ copied => exact keep copied
      | zero =>
        unfold segmentsFrom
        split
        · rename_i n new hedit
          rw [List.flatMap_cons, Segment.after]
          exact .inr (occursIn_of_isInfix (he _ n new hedit) (List.prefix_append _ _).isInfix)
        · rename_i n _
          exact keep (n - 1)
        · exact keep 0

/-- The name of the headers that let browsers call from other origins. -/
def headersName : Text := "corsHeaders".toList

theorem foreign_headersName : Foreign headersName where
  ne_nil := by decide
  isWord := List.all_eq_true.1 (by decide)
  solid := by
    have hall : headersName.all (fun a => !isBlank a) = true := by decide
    simpa using hall
  untaken := ⟨'H', by decide, by decide⟩
  operators := by decide

theorem occursIn_jsonHeaders : occursIn headersName jsonHeaders = true := by decide

theorem infix_jsonHeaders (status payload : Text) :
    jsonHeaders <:+: answer .json payload ∧ jsonHeaders <:+: answerWithStatus .json status payload := by
  constructor
  · unfold answer
    apply List.infix_append
  · unfold answerWithStatus
    apply List.infix_append

/-- A rule that answers with JSON. -/
def Action.answersJson : Action → Bool
  | statusResponse .json | response .json => true
  | _ => false

theorem occursIn_of_answersJson {action : Action} (ha : action.answersJson = true) (c : Cursor)
    (n : Nat) (new : Text) (h : action.edit c = some (.replace n new)) :
    occursIn headersName new = true := by
  cases action with
  | statusResponse method =>
    cases method with
    | json =>
      obtain ⟨m, status, chained, payload, -, -, -, -, -, rfl⟩ := exists_of_statusEdit h
      exact occursIn_of_isInfix occursIn_jsonHeaders (infix_jsonHeaders _ _).2
    | send => cases ha
  | response method =>
    cases method with
    | json =>
      obtain ⟨m, args, -, -, hnew, -⟩ := exists_of_callEdit h
      unfold convertResponse at hnew
      split at hnew
      · cases hnew
        exact occursIn_of_isInfix occursIn_jsonHeaders (infix_jsonHeaders [] _).1
      · cases hnew
    | send => cases ha
  | substitute p new => cases ha
  | document => cases ha
  | filter => cases ha

theorem occursIn_apply_of_answersJson {rule : Rule} (ha : rule.action.answersJson = true) {t : Text}
    (h : rule.apply t ≠ t) : occursIn headersName (rule.apply t) = true := by
  rcases occursIn_edited_or (occursIn_of_answersJson ha) 0 0 none 0 t with hsame | hin
  · exact absurd hsame h
  · exact hin

/-- A rule that answers with JSON and has something to do leaves the name of the headers behind,
whatever the rules after it do. -/
theorem occursIn_applyAll_of_answersJson {rules : List Rule} (hr : ∀ rule ∈ rules, rule ∈ Rule.all)
    {name : String} {t t' : Text} (hs : (name, t') ∈ steps rules t)
    (hname : name = "status_json" ∨ name = "json") :
    occursIn headersName (applyAll rules t) = true := by
  induction rules generalizing t with
  | nil => cases hs
  | cons rule rest ih =>
    have hrest : ∀ r ∈ rest, r ∈ Rule.all := fun r h => hr r (List.mem_cons_of_mem _ h)
    simp only [steps] at hs
    split at hs
    · rename_i hsame
      have := ih hrest hs
      rwa [← hsame] at this
    · rename_i hchanged
      rcases List.mem_cons.1 hs with he | hs
      · cases he
        have hjson : rule.action.answersJson = true := by
          have all : ∀ rule ∈ Rule.all, rule.name = "status_json" ∨ rule.name = "json" →
              rule.action.answersJson = true := by
            decide
          exact all rule (hr rule List.mem_cons_self) hname
        exact foreign_headersName.occursIn_applyAll hrest
          (occursIn_apply_of_answersJson hjson hchanged)
      · exact ih hrest hs

theorem occursIn_adapt {w : Text} {rules : List Rule} {body : Text}
    (h : occursIn w (applyAll rules body) = true) : occursIn w (adapt rules body) = true :=
  occursIn_of_isInfix h (List.suffix_append _ _).isInfix

end BackendMigration.Adaptation
