import BackendMigration.Adaptation.Body
import BackendMigration.Proofs.Adaptation.Calls

/-! Adapting a body keeps its brackets balanced. -/
namespace BackendMigration.Adaptation

open Source

variable {p : Pattern} {c : Cursor} {m : Match} {name inner new : Text}

theorem opensCall_of_mem (hp : p ∈ [documentCall, filterCall, statusCall, responseCall, chainedCall]) :
    OpensCall p := by
  have all : ∀ p ∈ [documentCall, filterCall, statusCall, responseCall, chainedCall],
      0 < p.minLength ∧ ∀ d ∈ bracketPairs, p.balance? d = some (balance d ['(']) := by
    decide
  exact all p hp

theorem callEdit_keepsBalance {convert : List Text → Match → Option Text} (hp : OpensCall p)
    (hc : ∀ name inner m new, (∀ d ∈ bracketPairs, balance d name = 0) →
      Nested .parentheses inner → convert (argumentTexts inner) m = some new →
      KeepsBalance (callText name inner) new) : EditKeepsBalance (callEdit p convert) := by
  intro c n new h
  obtain ⟨m, args, hm, ha, hnew, rfl⟩ := exists_of_callEdit h
  obtain ⟨name, rest, hname, hr, hl, hi⟩ := text_of_call hp.1 hm ha
  have hpos : 0 < (callText name args.inner).length := by
    rw [callText, List.length_append, List.length_cons]
    omega
  rw [hl, Nat.sub_add_cancel hpos, hr, List.take_left]
  exact hc name args.inner m new (balance_name hp hm hname) hi hnew

/-- The id of a document is put between calls that are complete. -/
theorem convertDocument_keepsBalance (hname : ∀ d ∈ bracketPairs, balance d name = 0)
    (hi : Nested .parentheses inner)
    (h : convertDocument (argumentTexts inner) m = some new) :
    KeepsBalance (callText name inner) new := by
  have ha := brackets_argumentTexts inner
  unfold convertDocument at h
  split at h
  · rename_i id he
    rw [he, List.flatMap_singleton] at ha
    split at h
    · cases h
    · cases h
      exact keepsBalance_callText hname hi ha (by decide) (by decide +kernel)
  · cases h

/-- The operator of a filter, which is left out, has no brackets. -/
theorem brackets_of_lookup_filterMethods {operator : Text} {method : String}
    (h : filterMethods.lookup (String.ofList (Text.trim isQuote operator)) = some method) :
    brackets operator = [] ∧ brackets method.toList = [] := by
  have all : ∀ f ∈ filterMethods, brackets f.1.toList = [] ∧ brackets f.2.toList = [] := by
    decide
  obtain ⟨before, after, hf, _⟩ := List.lookup_eq_some_iff.1 h
  have := all (String.ofList (Text.trim isQuote operator), method) (by simp [hf])
  rwa [String.toList_ofList, brackets_trim fun _ => not_isBracket_of_isQuote] at this

theorem convertFilter_keepsBalance (hname : ∀ d ∈ bracketPairs, balance d name = 0)
    (hi : Nested .parentheses inner)
    (h : convertFilter (argumentTexts inner) m = some new) :
    KeepsBalance (callText name inner) new := by
  have ha := brackets_argumentTexts inner
  unfold convertFilter at h
  split at h
  · rename_i field operator value he
    obtain ⟨method, hl, rfl⟩ := Option.map_eq_some_iff.1 h
    obtain ⟨ho, hm⟩ := brackets_of_lookup_filterMethods hl
    have hfv : brackets (field ++ value) = brackets inner := by
      simpa [he, ho] using ha
    have plain : KeepsBalance (callText name inner)
        ("(".toList ++ (field ++ value) ++ ")".toList) :=
      keepsBalance_callText hname hi hfv (by decide) (by decide)
    refine plain.trans (.of_brackets_eq ?_)
    have hpoint : brackets ".".toList = [] := by decide
    have hcomma : brackets ", ".toList = [] := by decide
    simp only [brackets_append, hm, hpoint, hcomma, List.nil_append, List.append_assoc]
  · cases h

theorem brackets_join {separator : Text} (hs : brackets separator = []) (parts : List Text) :
    brackets (Text.join separator parts) = parts.flatMap brackets := by
  fun_induction Text.join separator parts with
  | case1 => rfl
  | case2 t => simp
  | case3 t rest _ ih => rw [brackets_append, brackets_append, hs, ih, List.append_nil,
      List.flatMap_cons]

/-- The payload of an answer is put into a call that is complete. -/
theorem convertResponse_keepsBalance {method : ResponseMethod}
    (hname : ∀ d ∈ bracketPairs, balance d name = 0) (hi : Nested .parentheses inner)
    (h : convertResponse method (argumentTexts inner) m = some new) :
    KeepsBalance (callText name inner) new := by
  have hcomma : brackets ", ".toList = [] := by decide
  have hj : brackets (Text.join ", ".toList (argumentTexts inner)) = brackets inner := by
    rw [brackets_join hcomma, brackets_argumentTexts]
  unfold convertResponse at h
  split at h
  · obtain rfl := Option.some.inj h
    unfold answer
    split
    · rw [List.append_assoc, List.append_assoc]
      exact keepsBalance_callText hname hi hj (by decide) (by decide)
    · exact keepsBalance_callText hname hi hj (by decide) (by decide)
  · cases h

/-- The status and the payload change places; both are put into a call that is complete. -/
theorem answerWithStatus_keepsBalance (method : ResponseMethod) {name name' status payload : Text}
    (hname : ∀ d ∈ bracketPairs, balance d name = 0) (hs : Nested .parentheses status)
    (hname' : ∀ d ∈ bracketPairs, balance d name' = 0) (hp : Nested .parentheses payload) :
    KeepsBalance (callText name status ++ callText name' payload)
      (answerWithStatus method (Text.strip status) (Text.strip payload)) := by
  have hmem : Delimiters.parentheses ∈ bracketPairs := by decide
  have hs' := hs.of_brackets_eq hmem (brackets_strip status)
  have hp' := hp.of_brackets_eq hmem (brackets_strip payload)
  obtain ⟨front, middle, back, hnew, hsum, hdepth⟩ : ∃ front middle back,
      answerWithStatus method (Text.strip status) (Text.strip payload) =
        front ++ Text.strip payload ++ (middle ++ Text.strip status ++ back) ∧
      (∀ d ∈ bracketPairs, balance d (front ++ middle ++ back) = 0) ∧
      depthAfter? .parentheses 0 (front ++ middle ++ back) = some 0 := by
    unfold answerWithStatus
    split
    · exact ⟨"return new Response(JSON.stringify(".toList, "), \x7b status: ".toList,
        ", headers: ".toList ++ (jsonHeaders ++ " \x7d)".toList),
        by simp only [List.append_assoc], by decide, by decide⟩
    · exact ⟨"return new Response(".toList, ", \x7b status: ".toList, " \x7d)".toList,
        by simp only [List.append_assoc], by decide, by decide⟩
  rw [hnew]
  refine .of_depthAfter? (fun d hd => ?_) (show depthAfter? .parentheses 0 _ = some 0 from ?_)
  · have := hsum d hd
    rw [balance_append, balance_append] at this
    rw [balance_append (callText name status), balance_callText hd (hname d hd),
      balance_callText hd (hname' d hd), ← balance_brackets hd status, ← brackets_strip status,
      ← balance_brackets hd payload, ← brackets_strip payload, balance_brackets hd,
      balance_brackets hd]
    simp only [balance_append]
    omega
  · rw [depthAfter?_insert distinct_parentheses hp', ← List.append_assoc, ← List.append_assoc,
      depthAfter?_insert distinct_parentheses hs', hdepth]

theorem statusEdit_keepsBalance (method : ResponseMethod) :
    EditKeepsBalance (statusEdit method) := by
  intro c n new h
  obtain ⟨m, c', m', name, status, name', payload, rest, hm, hname, hm', hname', hr, rfl, hs, hp, rfl⟩ :=
    text_of_statusEdit h
  have hpos : 0 < (callText name status ++ callText name' payload).length := by
    simp only [callText, List.length_append, List.length_cons]
    omega
  rw [Nat.sub_add_cancel hpos, hr, List.take_left]
  exact answerWithStatus_keepsBalance method (balance_name (opensCall_of_mem (by simp)) hm hname) hs
    (balance_name (opensCall_of_mem (by simp)) hm' hname') hp

/-- A fixed text has the balance of every match it replaces, and closes nothing that it does not
open. -/
def Action.Balanced : Action → Prop
  | substitute p new => 0 < p.minLength ∧
      (∀ d ∈ bracketPairs, p.balance? d = some (balance d new.toList)) ∧
      (depthAfter? .parentheses 0 new.toList).isSome = true
  | _ => True

instance : DecidablePred Action.Balanced := fun action =>
  match action with
  | .substitute p new => inferInstanceAs (Decidable (0 < p.minLength ∧
      (∀ d ∈ bracketPairs, p.balance? d = some (balance d new.toList)) ∧
      (depthAfter? .parentheses 0 new.toList).isSome = true))
  | .document | .filter | .statusResponse _ | .response _ => inferInstanceAs (Decidable True)

theorem Rule.action_balanced {rule : Rule} (h : rule ∈ Rule.all) : rule.action.Balanced := by
  have all : ∀ rule ∈ Rule.all, rule.action.Balanced := by decide
  exact all rule h

theorem substitution_keepsBalance {new : String} (h : (Action.substitute p new).Balanced) :
    EditKeepsBalance (substitution p new.toList) := by
  obtain ⟨hl, hb, hd⟩ := h
  obtain ⟨k, hk⟩ := Option.isSome_iff_exists.1 hd
  intro c n t he
  obtain ⟨m, hm, he⟩ := Option.map_eq_some_iff.1 he
  obtain ⟨rfl, rfl⟩ := Edit.replace.inj he
  obtain ⟨c', ht, hs, hc', hr, hlength⟩ := Pattern.takes_of_matchAt? hm
  have hpos := ht.minLength_le
  rw [show m.stop - m.start - 1 + 1 = m.text.length by omega, hr, List.take_left]
  exact .of_depthAfter? (fun d hd => (Pattern.balance_of_matchAt? hm (hb d hd)).symm) hk

theorem Action.edit_keepsBalance {action : Action} (h : action.Balanced) :
    EditKeepsBalance action.edit := by
  cases action with
  | substitute p new => exact substitution_keepsBalance h
  | document =>
    exact callEdit_keepsBalance (opensCall_of_mem (by simp)) fun _ _ _ _ =>
      convertDocument_keepsBalance
  | filter =>
    exact callEdit_keepsBalance (opensCall_of_mem (by simp)) fun _ _ _ _ =>
      convertFilter_keepsBalance
  | statusResponse method => exact statusEdit_keepsBalance method
  | response method =>
    exact callEdit_keepsBalance (opensCall_of_mem (by simp)) fun _ _ _ _ =>
      convertResponse_keepsBalance

theorem applyAll_keepsBalance {rules : List Rule} (hr : ∀ rule ∈ rules, rule ∈ Rule.all)
    (t : Text) : KeepsBalance t (applyAll rules t) := by
  induction rules generalizing t with
  | nil => exact .refl t
  | cons rule rest ih =>
    have hrule := Rule.action_balanced (hr rule List.mem_cons_self)
    exact ((Action.edit_keepsBalance hrule).edited t).trans
      (ih (fun r h => hr r (List.mem_cons_of_mem _ h)) (rule.apply t))

theorem brackets_markers (t : Text) : brackets ((reasons t).flatMap markerLine) = [] := by
  have all : ∀ r ∈ residuals, brackets (markerLine r.2) = [] := by
    rw [residuals]
    simp only [List.forall_mem_cons]
    unfold markerLine reviewMarker
    repeat rw [String.toList_ofList]
    decide
  refine List.filter_eq_nil_iff.2 fun c hc => ?_
  obtain ⟨reason, hreason, hc⟩ := List.mem_flatMap.1 hc
  obtain ⟨r, hr, rfl⟩ := List.mem_map.1 hreason
  exact List.filter_eq_nil_iff.1 (all r (List.mem_filter.1 hr).1) c hc

/-- Whatever rules adapt a body, and in whatever order: each pair of brackets keeps its balance, and
parentheses that were nested are nested still. -/
theorem adapt_keeps_brackets {rules : List Rule} (hr : ∀ rule ∈ rules, rule ∈ Rule.all)
    (body : Text) :
    (∀ d ∈ [Delimiters.parentheses, .brackets, .braces],
      balance d (adapt rules body) = balance d body) ∧
    (Nested .parentheses body → Nested .parentheses (adapt rules body)) := by
  have marked : KeepsBalance (applyAll rules body) (adapt rules body) := by
    refine .of_brackets_eq ?_
    rw [adapt, brackets_append, brackets_markers, List.nil_append]
  have h := (applyAll_keepsBalance hr body).trans marked
  exact ⟨h.balance_eq, h.nested⟩

/-- Rules out of their order, on a filter within a status. -/
theorem adapt_keeps_brackets_of_status :
    let rules : List Rule := [⟨"status_json", .statusResponse .json⟩, ⟨"where", .filter⟩]
    let body := "res.status(db.where('a', '==', f(x))).json([1, 2])".toList
    (∀ rule ∈ rules, rule ∈ Rule.all) ∧ Nested .parentheses body ∧
      Nested .parentheses (adapt rules body) := by
  have hr : ∀ rule ∈ [(⟨"status_json", .statusResponse .json⟩ : Rule), ⟨"where", .filter⟩],
      rule ∈ Rule.all := by
    decide
  have hn : Nested .parentheses "res.status(db.where('a', '==', f(x))).json([1, 2])".toList :=
    (nested_iff distinct_parentheses).2 (by decide)
  exact ⟨hr, hn, (adapt_keeps_brackets hr _).2 hn⟩

end BackendMigration.Adaptation
