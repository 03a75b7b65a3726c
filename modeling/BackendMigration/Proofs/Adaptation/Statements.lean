import BackendMigration.Adaptation.Body
import BackendMigration.Proofs.Adaptation.Answered

/-! Where the rules for answers put a `return`: where the answer stood, also if no statement can begin there. -/
namespace BackendMigration.Adaptation

open Source Text

/-- The tokens after which an expression goes on. -/
def expressionTokens : List Text := ["return", "await", "=", "=>", ",", "("].map String.toList

/-- The methods of the response object that the rules look for. -/
def answerMethods : List Text := ["json", "send", "status"].map String.toList

/-- Tokens that begin with a call that answers. -/
def isCall : List Text → Bool
  | object :: point :: method :: opening :: _ =>
    object == "res".toList && point == ['.'] && answerMethods.contains method && opening == ['(']
  | _ => false

/-- After a token that an expression follows there is a `return`, or an answer that has none. -/
def misplaced (v : Text) (ws : List Text) : Bool :=
  expressionTokens.contains v &&
    (ws.head? == some "return".toList || v != "return".toList && isCall ws)

/-- No `return` and no answer is where an expression goes on. -/
def wellPlaced : List Text → Bool
  | [] => true
  | v :: ws => !misplaced v ws && wellPlaced ws

/-- The tokens with which a statement can begin that answers. -/
def starters : List Text := ["return", "res"].map String.toList

/-- A token that is no part of a call but its beginning. -/
def cuts (w : Text) : Bool := !([['.'], ['(']] ++ answerMethods).contains w

variable {u v w : Text} {us vs ws : List Text}

theorem isCall_append (hus : us ≠ []) (hw : cuts w = true) : isCall (us ++ w :: ws) = isCall us := by
  simp only [cuts, Bool.not_eq_true', List.contains_append, Bool.or_eq_false_iff] at hw
  rcases us with _ | ⟨a, _ | ⟨b, _ | ⟨c, _ | ⟨d, r⟩⟩⟩⟩
  · exact absurd rfl hus
  · rcases ws with _ | ⟨x, _ | ⟨y, z⟩⟩ <;> simp_all [isCall]
  · rcases ws with _ | ⟨x, z⟩ <;> simp_all [isCall]
  · simp_all [isCall]
  · rfl

theorem misplaced_append (hus : us ≠ []) (hw : cuts w = true) :
    misplaced v (us ++ w :: ws) = misplaced v us := by
  rw [misplaced, misplaced, isCall_append hus hw, List.head?_append_of_ne_nil _ hus]

theorem misplaced_nil (v : Text) : misplaced v [] = false := by simp [misplaced, isCall]

theorem isCall_of_ne (hw : (w == "res".toList) = false) (ws : List Text) : isCall (w :: ws) = false := by
  unfold isCall
  split
  · rename_i heq
    obtain ⟨rfl, -⟩ := List.cons.inj heq
    rw [hw, Bool.false_and, Bool.false_and, Bool.false_and]
  · rfl

theorem misplaced_of_not_starter (hw : starters.contains w = false) (v : Text) (ws : List Text) :
    misplaced v (w :: ws) = false := by
  have hne : (w == "return".toList) = false ∧ (w == "res".toList) = false := by
    rwa [starters, List.map_cons, List.map_cons, List.map_nil, List.contains_cons, List.contains_cons,
      List.contains_nil, Bool.or_false, Bool.or_eq_false_iff] at hw
  rw [misplaced, isCall_of_ne hne.2, List.head?_cons, Bool.and_false, Bool.or_false, Option.some_beq_some,
    hne.1, Bool.and_false]

theorem wellPlaced_cons (v : Text) (ws : List Text) :
    wellPlaced (v :: ws) = (!misplaced v ws && wellPlaced ws) := rfl

theorem wellPlaced_append_right (h : wellPlaced (us ++ ws) = true) : wellPlaced ws = true := by
  induction us with
  | nil => exact h
  | cons u us ih => exact ih (Bool.and_eq_true_iff.1 h).2

/-- Where no call goes on, tokens can be looked at from the left and from the right. -/
theorem wellPlaced_append_cons (hw : cuts w = true) : wellPlaced (us ++ w :: ws) =
    (wellPlaced us && !us.getLast?.any (misplaced · (w :: ws)) && wellPlaced (w :: ws)) := by
  induction us with
  | nil => simp [wellPlaced]
  | cons u us ih =>
    cases us with
    | nil => simp [wellPlaced, misplaced_nil]
    | cons x us =>
      have hne : x :: us ≠ [] := List.cons_ne_nil x us
      rw [List.cons_append, wellPlaced_cons, misplaced_append hne hw, ih, List.getLast?_cons_cons,
        wellPlaced_cons u, Bool.and_assoc, Bool.and_assoc, Bool.and_assoc]

/-- In fixed tokens no expression begins as an answer does. -/
def settled : List Text → Bool
  | v :: w :: ws => !(expressionTokens.contains v && starters.contains w) && settled (w :: ws)
  | _ => true

theorem wellPlaced_of_settled (h : settled (us ++ [v]) = true) (ws : List Text) :
    wellPlaced (us ++ v :: ws) = wellPlaced (v :: ws) := by
  induction us with
  | nil => rfl
  | cons u us ih =>
    obtain ⟨x, xs, ys, hxs, hys⟩ : ∃ x xs ys, us ++ [v] = x :: xs ∧ us ++ v :: ws = x :: ys := by
      cases us with
      | nil => exact ⟨v, [], ws, rfl, rfl⟩
      | cons x us => exact ⟨x, us ++ [v], us ++ v :: ws, rfl, rfl⟩
    rw [List.cons_append, hxs, settled, Bool.and_eq_true, ← hxs] at h
    have hu : misplaced u (us ++ v :: ws) = false := by
      cases hx : starters.contains x with
      | false => exact hys ▸ misplaced_of_not_starter hx u ys
      | true =>
        have hsafe := h.1
        rw [hx, Bool.and_true, Bool.not_eq_true'] at hsafe
        rw [misplaced, hsafe, Bool.false_and]
    rw [List.cons_append, wellPlaced_cons, hu, Bool.not_false, Bool.true_and, ih h.2]

theorem wellPlaced_append_of_settled {ts : List Text} (h : settled ts = true) (hlast : ts.getLast? = some v)
    (ws : List Text) : wellPlaced (ts ++ ws) = wellPlaced (v :: ws) := by
  obtain ⟨front, rfl⟩ := List.getLast?_eq_some_iff.1 hlast
  rw [List.append_assoc, List.singleton_append, wellPlaced_of_settled h]

/-- Fixed tokens that can stand between any tokens. -/
def isLink (ts : List Text) : Bool :=
  settled ts && ts.head?.any fun w => cuts w && !starters.contains w

/-- Tokens on both sides of a link do not matter to each other. -/
theorem wellPlaced_link {ts : List Text} (ht : isLink ts = true) (hlast : ts.getLast? = some v)
    (hus : wellPlaced us = true) (hws : wellPlaced (v :: ws) = true) :
    wellPlaced (us ++ (ts ++ ws)) = true := by
  rw [isLink, Bool.and_eq_true] at ht
  obtain ⟨hsettled, hhead⟩ := ht
  have hrest : wellPlaced (ts ++ ws) = true := by rw [wellPlaced_append_of_settled hsettled hlast, hws]
  cases ts with
  | nil => cases hhead
  | cons w ts =>
    rw [List.head?_cons, Option.any_some, Bool.and_eq_true, Bool.not_eq_true'] at hhead
    have hfirst : us.getLast?.any (misplaced · (w :: (ts ++ ws))) = false := by
      cases us.getLast? with
      | none => rfl
      | some u => exact misplaced_of_not_starter hhead.2 u _
    rw [List.cons_append, wellPlaced_append_cons hhead.1, hus, hfirst]
    exact hrest

/-- The arguments of a call, and what follows it, are well placed with the call. -/
theorem wellPlaced_arguments (front : List Text) {inner : List Text}
    (h : wellPlaced (front ++ ['('] :: (inner ++ [')'] :: us)) = true) :
    wellPlaced (['('] :: inner) = true ∧ wellPlaced ([')'] :: us) = true := by
  have hcall := wellPlaced_append_right h
  rw [← List.cons_append, wellPlaced_append_cons (by decide), Bool.and_eq_true, Bool.and_eq_true] at hcall
  exact ⟨hcall.1.1, hcall.2⟩

/-! The new statements. -/

variable {payload status : Text}

/-- No token goes on after the character. -/
def endsToken (a : Char) : Bool := !isWord a && a != '='

/-- No token goes on to the character. -/
def beginsToken (a : Char) : Bool := !isWord a && a != '>'

theorem tokens_around {f b : Text} (hf : f.getLast?.any endsToken = true)
    (hb : b.head?.any beginsToken = true) (t : Text) :
    tokens (f ++ t ++ b) = tokens f ++ tokens t ++ tokens b := by
  obtain ⟨x, hx, hendsx⟩ := (Option.any_eq_true _ _).1 hf
  obtain ⟨y, hy, hbeginsy⟩ := (Option.any_eq_true _ _).1 hb
  obtain ⟨f, rfl⟩ := List.getLast?_eq_some_iff.1 hx
  obtain ⟨b, rfl⟩ := List.head?_eq_some_iff.1 hy
  simp only [endsToken, beginsToken, Bool.and_eq_true, Bool.not_eq_true', bne_iff_ne] at hendsx hbeginsy
  rw [tokens_append (apart_cons hbeginsy.1 hbeginsy.2 _ b),
    tokens_append (apart_concat hendsx.1 hendsx.2 f t)]

theorem tokens_answer (method : ResponseMethod) (payload : Text) : tokens (answer method payload) =
    tokens (payloadFront method) ++ tokens payload ++ tokens (payloadBack method) := by
  rw [answer_eq]
  apply tokens_around
  all_goals cases method <;> decide

theorem tokens_answerWithStatus (method : ResponseMethod) (status payload : Text) :
    tokens (answerWithStatus method status payload) =
      tokens (payloadFront method) ++ tokens payload ++
        (tokens (statusFront method) ++ tokens status ++ tokens (statusBack method)) := by
  have hne : statusFront method ≠ [] := by cases method <;> decide
  rw [answerWithStatus_eq, tokens_around, tokens_around]
  · cases method <;> decide
  · cases method <;> decide
  · cases method <;> decide
  · rw [List.append_assoc, List.head?_append_of_ne_nil _ hne]
    cases method <;> decide

/-- The fixed tokens of the statements: those before the payload, and those that go between. -/
theorem fixed_tokens (method : ResponseMethod) :
    settled (tokens (payloadFront method)) = true ∧
      (tokens (payloadFront method)).head? = some "return".toList ∧
      (tokens (payloadFront method)).getLast? = some ['('] ∧
      isLink (tokens (payloadBack method)) = true ∧
      (tokens (payloadBack method)).getLast? = some [')'] ∧
      isLink (tokens (statusFront method)) = true ∧
      (tokens (statusFront method)).getLast? = some [':'] ∧
      isLink (tokens (statusBack method)) = true ∧
      (tokens (statusBack method)).getLast? = some [')'] := by
  cases method <;> decide

theorem wellPlaced_answer (method : ResponseMethod) (hp : wellPlaced (['('] :: tokens payload) = true)
    (hws : wellPlaced ([')'] :: ws) = true) : wellPlaced (tokens (answer method payload) ++ ws) = true := by
  obtain ⟨hfront, -, hopen, hback, hclose, -⟩ := fixed_tokens method
  rw [tokens_answer, List.append_assoc, List.append_assoc, wellPlaced_append_of_settled hfront hopen,
    ← List.cons_append]
  exact wellPlaced_link hback hclose hp hws

theorem wellPlaced_answerWithStatus (method : ResponseMethod)
    (hp : wellPlaced (['('] :: tokens payload) = true) (hs : wellPlaced (['('] :: tokens status) = true)
    (hws : wellPlaced ([')'] :: ws) = true) :
    wellPlaced (tokens (answerWithStatus method status payload) ++ ws) = true := by
  obtain ⟨hfront, -, hopen, -, -, hmiddle, hcolon, hback, hclose⟩ := fixed_tokens method
  have hstatus : wellPlaced ([':'] :: tokens status) = true := by
    have hmisplaced : misplaced [':'] (tokens status) = false := by
      have hno : expressionTokens.contains [':'] = false := by decide
      rw [misplaced, hno, Bool.false_and]
    rw [wellPlaced_cons, hmisplaced]
    exact (Bool.and_eq_true_iff.1 hs).2
  have hrest := wellPlaced_link hback hclose hstatus hws
  simp only [tokens_answerWithStatus, List.append_assoc]
  rw [wellPlaced_append_of_settled hfront hopen, ← List.cons_append]
  exact wellPlaced_link hmiddle hcolon hp hrest

variable {old new : List Text}

theorem Answer.head?_new (h : Answer old new) : new.head? = some "return".toList := by
  have hhead (method : ResponseMethod) (ts : List Text) :
      (tokens (payloadFront method) ++ ts).head? = some "return".toList := by
    obtain ⟨-, hhead, -⟩ := fixed_tokens method
    rw [List.head?_append, hhead]
    rfl
  cases h with
  | plain returned called method payload => rw [tokens_answer, List.append_assoc, hhead]
  | status returned called method status payload =>
    rw [tokens_answerWithStatus, List.append_assoc, hhead]

/-- An answer begins with its `return` or is a call. -/
theorem Answer.head?_old (h : Answer old new) : old.head? = some "return".toList ∨
    old.head? = some "res".toList ∧ ∀ us, isCall (old ++ us) = true := by
  cases h with
  | plain returned called method payload =>
    cases returned with
    | true => exact .inl rfl
    | false =>
      refine .inr ⟨rfl, fun us => ?_⟩
      cases called <;> rfl
  | status returned called method status payload =>
    cases returned with
    | true => exact .inl rfl
    | false => exact .inr ⟨rfl, fun us => rfl⟩

/-- What is well placed with an answer is so with the statement that it becomes. -/
theorem Answer.wellPlaced_new (h : Answer old new) (hus : wellPlaced (old ++ us) = true) :
    wellPlaced ([')'] :: us) = true ∧
      (wellPlaced ([')'] :: ws) = true → wellPlaced (new ++ ws) = true) := by
  cases h with
  | plain returned called method payload =>
    have hcall : wellPlaced ((returnTokens returned ++ ["res".toList, ['.'], called.name.toList]) ++
        ['('] :: (tokens payload ++ [')'] :: us)) = true := by
      simpa only [callTokens, List.append_assoc, List.cons_append, List.nil_append] using hus
    obtain ⟨hpayload, hus⟩ := wellPlaced_arguments _ hcall
    exact ⟨hus, wellPlaced_answer method hpayload⟩
  | status returned called method status payload =>
    have hcall : wellPlaced ((returnTokens returned ++ ["res".toList, ['.'], "status".toList]) ++
        ['('] :: (tokens status ++ [')'] :: ([['.'], called.name.toList] ++
          ['('] :: (tokens payload ++ [')'] :: us)))) = true := by
      simpa only [callTokens, List.append_assoc, List.cons_append, List.nil_append] using hus
    obtain ⟨hstatus, hchained⟩ := wellPlaced_arguments _ hcall
    rw [← List.cons_append] at hchained
    obtain ⟨hpayload, hus⟩ := wellPlaced_arguments _ hchained
    exact ⟨hus, wellPlaced_answerWithStatus method hpayload hstatus⟩

/-- The statement that an answer becomes is misplaced only if the answer was. -/
theorem Answer.misplaced_old (h : Answer old new) (hno : old.head? ≠ some "return".toList → v ≠ "return".toList)
    (hv : expressionTokens.contains v = true) (us : List Text) : misplaced v (old ++ us) = true := by
  have hne : old ≠ [] := by
    rintro rfl
    rcases h.head?_old with h | ⟨h, -⟩ <;> cases h
  rw [misplaced, hv, Bool.true_and, Bool.or_eq_true, List.head?_append_of_ne_nil _ hne]
  rcases h.head?_old with hreturn | ⟨hres, hcall⟩
  · rw [hreturn]
    exact .inl rfl
  · have hv : v ≠ "return".toList := hno (by rw [hres]; decide)
    rw [hcall, bne_iff_ne.2 hv]
    exact .inr rfl

/-- Where the statement that an answer becomes would be misplaced, the answer was. -/
theorem Answer.misplaced_new (h : Answer old new)
    (hno : old.head? ≠ some "return".toList → v ≠ "return".toList)
    (hold : misplaced v (old ++ us) = false) (ws : List Text) : misplaced v (new ++ ws) = false := by
  by_contra hmisplaced
  rw [Bool.not_eq_false, misplaced, Bool.and_eq_true] at hmisplaced
  rw [h.misplaced_old hno hmisplaced.1] at hold
  cases hold

theorem Answer.cuts_old (h : Answer old new) : ∃ w ts, old = w :: ts ∧ cuts w = true := by
  rcases h.head?_old with hw | ⟨hw, -⟩
  all_goals
    obtain ⟨ts, rfl⟩ := List.head?_eq_some_iff.1 hw
    exact ⟨_, ts, rfl, by decide⟩

/-- Replacing answers keeps the place of every `return`, and so of every answer. -/
theorem Answered.wellPlaced {last : Option Text} (h : Answered last us vs)
    (hus : wellPlaced (last.toList ++ us) = true) : wellPlaced (last.toList ++ vs) = true := by
  induction h with
  | same => exact hus
  | @answer last run old new us vs h hlast _ ih =>
    rw [← List.append_assoc] at hus ⊢
    -- An answer ends in a closing parenthesis, as its statement does: the rest goes on after the same token.
    obtain ⟨hrest, hclosed⟩ := h.wellPlaced_new (wellPlaced_append_right hus)
    have hnew : Adaptation.wellPlaced (new ++ vs) = true := hclosed (ih hrest)
    -- What is left is the token in front of the answer, which is the one in front of the statement.
    obtain ⟨w, old', hold, hcut⟩ := h.cuts_old
    rw [hold, List.cons_append, wellPlaced_append_cons hcut, Bool.and_eq_true, Bool.and_eq_true,
      Bool.not_eq_true', ← List.cons_append, ← hold] at hus
    obtain ⟨⟨hrun, hbefore⟩, -⟩ := hus
    have hjoin : (last.toList ++ run).getLast?.any (misplaced · (new ++ vs)) = false := by
      cases hv : (last.toList ++ run).getLast? with
      | none => rfl
      | some v =>
        rw [hv, Option.any_some] at hbefore
        refine h.misplaced_new ?_ hbefore vs
        rintro hold rfl
        exact hlast hold hv
    obtain ⟨new', rfl⟩ := List.head?_eq_some_iff.1 h.head?_new
    rw [List.cons_append, wellPlaced_append_cons (by decide), hrun, ← List.cons_append, hnew, hjoin]
    rfl

/-! The rules. -/

/-- The actions that replace answers. -/
def Action.answers : Action → Bool
  | statusResponse _ | response _ => true
  | substitute _ _ | document | filter => false

theorem Action.editsAnswers {action : Action} (h : action.answers = true) : EditsAnswers action.edit := by
  cases action with
  | statusResponse method => exact statusEdit_answers method
  | response method => exact responseEdit_answers method
  | substitute | document | filter => cases h

theorem Rule.answered_apply {rule : Rule} (h : rule.action.answers = true) (t : Text) :
    Answered none (tokens t) (tokens (rule.apply t)) :=
  answered_segmentsFrom (Action.editsAnswers h) t [] [] [] 0 0 (fresh_nil t) rfl (fun _ => rfl) (.inl rfl)

/-- Each rule for answers puts its statements exactly where the answers stood, and does not look at what is in
front of them but for a `return`. So no `return` is where an expression goes on if no answer and no
`return` was there in the body. -/
theorem answers_keep_place {rules : List Rule} (hr : ∀ rule ∈ rules, rule.action.answers = true) :
    (∀ rule ∈ rules, ∀ t, Answered none (tokens t) (tokens (rule.apply t))) ∧
      ∀ body, wellPlaced (tokens body) = true → wellPlaced (tokens (applyAll rules body)) = true := by
  refine ⟨fun rule h => Rule.answered_apply (hr rule h), ?_⟩
  induction rules with
  | nil => exact fun _ h => h
  | cons rule rest ih =>
    intro body h
    have hfirst := (Rule.answered_apply (hr rule List.mem_cons_self) body).wellPlaced h
    exact ih (fun r h => hr r (List.mem_cons_of_mem _ h)) (rule.apply body) hfirst

/-- The rules for answers. -/
def answerRules : List Rule := Rule.all.filter (·.action.answers)

theorem answers_keep_place_missing :
    (∀ rule ∈ answerRules, rule.action.answers = true) ∧
      wellPlaced (tokens "if (!user) return res.status(404).send('none'); res.json(user);".toList) = true ∧
      wellPlaced (tokens (applyAll answerRules
        "if (!user) return res.status(404).send('none'); res.json(user);".toList)) = true := by
  have hr : ∀ rule ∈ answerRules, rule.action.answers = true := fun _ h => (List.mem_filter.1 h).2
  have hbody : wellPlaced (tokens
      "if (!user) return res.status(404).send('none'); res.json(user);".toList) = true := by
    decide
  exact ⟨hr, hbody, (answers_keep_place hr).2 _ hbody⟩

/-- The answer that is the value of a function becomes a statement where only an expression can be. -/
theorem arrow_return : "return".toList ∉ tokens "const go = () => res.send(x);".toList ∧ ∃ front back,
    tokens (applyAll answerRules "const go = () => res.send(x);".toList) =
      front ++ "=>".toList :: "return".toList :: back := by
  refine ⟨by decide, ["const", "go", "=", "(", ")"].map String.toList,
    ["new", "Response", "(", "x", ")", ";"].map String.toList, ?_⟩
  decide

end BackendMigration.Adaptation
