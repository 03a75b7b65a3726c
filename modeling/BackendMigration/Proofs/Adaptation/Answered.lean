import BackendMigration.Proofs.Adaptation.Answers

/-! The course of the edits of answers through a text: a new statement stands exactly where the answer stood that
it replaces. -/
namespace BackendMigration.Adaptation

open Source Text

/-- Answers among tokens are replaced, each together with the `return` in front of it; `last` is the token
before the first one. So the token before each new statement is the one before the answer it stands for. -/
inductive Answered : (last : Option Text) → List Text → List Text → Prop
  | same (last : Option Text) (run : List Text) : Answered last run run
  | answer {last : Option Text} {run old new us vs : List Text} (h : Answer old new)
      (hlast : old.head? ≠ some "return".toList → (last.toList ++ run).getLast? ≠ some "return".toList)
      (rest : Answered (some [')']) us vs) : Answered last (run ++ (old ++ us)) (run ++ (new ++ vs))

def isParenthesis (a : Char) : Bool := a == '(' || a == ')'

/-- No edit begins in what ends the front and has no parenthesis. -/
def Fresh (edit : Cursor → Option Edit) (front back : Text) : Prop :=
  ∀ f g, front = f ++ g → g ≠ [] → (∀ a ∈ g, isParenthesis a = false) →
    edit (.between f (g ++ back)) = none

/-- What an edit covers yet ends with a parenthesis. -/
def Covered (n : Nat) (back : Text) : Prop :=
  ∃ s a r, back = s ++ a :: r ∧ isParenthesis a = true ∧ n = s.length + 1

/-- The edits are between two texts, `n` characters before the end of the last one. -/
def OnCourse (edit : Cursor → Option Edit) (n : Nat) (front back : Text) : Prop :=
  if n = 0 then Fresh edit front back else Covered n back

variable {edit : Cursor → Option Edit} {front back : Text} {c : Char}

theorem fresh_nil (back : Text) : Fresh edit [] back := by
  intro f g h hne
  exact absurd (List.append_eq_nil_iff.1 h.symm).2 hne

theorem fresh_concat (h : Fresh edit front (c :: back)) (hedit : edit (.between front (c :: back)) = none) :
    Fresh edit (front ++ [c]) back := by
  intro f g hfg hne hg
  rcases List.eq_nil_or_concat g with rfl | ⟨g, d, rfl⟩
  · exact absurd rfl hne
  · rw [List.concat_eq_append] at hfg hg ⊢
    rw [← List.append_assoc] at hfg
    obtain ⟨rfl, hd⟩ := List.append_inj' hfg rfl
    obtain rfl : c = d := List.singleton_inj.1 hd
    rw [List.append_assoc, List.singleton_append]
    cases g with
    | nil => rwa [List.append_nil] at hedit
    | cons e g => exact h f (e :: g) rfl (List.cons_ne_nil e g) fun a ha => hg a (List.mem_append_left _ ha)

theorem fresh_of_isParenthesis (hc : isParenthesis c = true) (front back : Text) :
    Fresh edit (front ++ [c]) back := by
  intro f g hfg hne hg
  have hlast : (front ++ [c]).getLast? = g.getLast? := by rw [hfg, List.getLast?_append_of_ne_nil _ hne]
  rw [List.getLast?_concat] at hlast
  rw [hg c (List.mem_of_getLast? hlast.symm)] at hc
  cases hc

theorem onCourse_of_covered {n : Nat} (h : Covered (n + 1) (c :: back)) :
    OnCourse edit n (front ++ [c]) back := by
  obtain ⟨s, a, r, ht, ha, hn⟩ := h
  unfold OnCourse
  cases s with
  | nil =>
    obtain ⟨rfl, rfl⟩ := List.cons.inj ht
    obtain rfl : n = 0 := Nat.succ.inj hn
    rw [if_pos rfl]
    exact fresh_of_isParenthesis ha _ _
  | cons d s =>
    obtain ⟨rfl, rfl⟩ := List.cons.inj ht
    obtain rfl : n = s.length + 1 := Nat.succ.inj hn
    rw [if_neg (Nat.succ_ne_zero _)]
    exact ⟨s, a, r, rfl, ha, rfl⟩

theorem isParenthesis_of_isBlank {a : Char} (h : isBlank a = true) : isParenthesis a = false := by
  unfold isParenthesis
  rw [Bool.or_eq_false_iff, beq_eq_false_iff_ne, beq_eq_false_iff_ne]
  constructor
  all_goals
    rintro rfl
    revert h
    decide

theorem ReplacesAt.rest_text {old rest new : Text} (hr : ReplacesAt edit (.between front back) old rest new) :
    back = old ++ rest := hr.rest_eq

/-- In front of an answer without `return` there is none. -/
theorem ReplacesAt.getLast?_ne_return {old rest new : Text}
    (hr : ReplacesAt edit (.between front back) old rest new) (hfresh : Fresh edit front back)
    (hno : (tokens old).head? ≠ some "return".toList) :
    (tokens front).getLast? ≠ some "return".toList := by
  intro hlast
  obtain rfl := hr.rest_text
  obtain ⟨f, b, rfl, hb, hf⟩ := exists_of_getLast?_tokens hlast
  refine hr.takes_return hno f b hb hf rfl ?_
  have hword : ("return".toList.any isParenthesis) = false := by decide
  have hne : "return".toList ++ b ≠ [] := by
    intro h
    exact absurd (List.append_eq_nil_iff.1 h).1 (by decide)
  have hplain : ∀ a ∈ "return".toList ++ b, isParenthesis a = false := by
    intro a ha
    rcases List.mem_append.1 ha with ha | ha
    · exact eq_false_of_ne_true (List.any_eq_false.1 hword a ha)
    · exact isParenthesis_of_isBlank (List.all_eq_true.1 hb a ha)
  have := hfresh f ("return".toList ++ b) rfl hne hplain
  rwa [List.append_assoc] at this

theorem tokens_concat_parenthesis (t : Text) : tokens (t ++ [')']) = tokens t ++ [[')']] := by
  have h : tokens [')'] = [[')']] := by decide
  rw [tokens_append_cons (by decide) (by decide), h]

/-- A text that begins and ends as a replaced one does stands apart from what is around it. -/
theorem tokens_between {old : Text} (hold : ∃ s, old = 'r' :: (s ++ [')'])) {run : Text}
    (hrun : run.getLast?.any isWord = false) (rest : Text) :
    tokens (run ++ (old ++ rest)) = tokens run ++ (tokens old ++ tokens rest) := by
  obtain ⟨s, rfl⟩ := hold
  have hleft : Apart run ('r' :: (s ++ [')']) ++ rest) := apart_of_any_isWord hrun (by decide) _
  have hright : Apart ('r' :: (s ++ [')'])) rest := by
    rw [← List.cons_append]
    exact apart_concat (by decide) (by decide) _ _
  rw [tokens_append hleft, tokens_append hright]

/-- An answer does not go on with the word that is kept in front of it. -/
theorem ReplacesAt.any_isWord_run {base run old rest new : Text}
    (hr : ReplacesAt edit (.between (base ++ run) back) old rest new) :
    run.getLast?.any isWord = false := by
  obtain ⟨s, hold⟩ := hr.old_eq
  have hhead : back.head? = some 'r' := by rw [hr.rest_text, hold]; rfl
  cases hlast : run.getLast? with
  | none => rfl
  | some a =>
    have hprevious : a ∈ (Cursor.between (base ++ run) back).previous := by
      rw [Cursor.between, List.getLast?_append, hlast]
      rfl
    cases ha : isWord a with
    | false => exact ha
    | true => exact absurd (hr.isBreak a hprevious 'r' hhead ha) (by decide)

theorem getLast?_toList_append (us vs : List Text) :
    (us.getLast?.toList ++ vs).getLast? = (us ++ vs).getLast? := by
  rw [List.getLast?_append, List.getLast?_append]
  cases us.getLast? <;> rfl

theorem apart_of_base {base : Text} (hbase : base = [] ∨ base.getLast? = some ')') (run : Text) :
    Apart base run := by
  rcases hbase with rfl | hbase
  · exact apart_nil_left run
  · obtain ⟨s, rfl⟩ := List.getLast?_eq_some_iff.1 hbase
    exact apart_concat (by decide) (by decide) s run

/-- An answer is replaced behind a run of text that is kept. -/
theorem ReplacesAt.answered {base run old rest new after : Text}
    (hr : ReplacesAt edit (.between (base ++ run) back) old rest new)
    (hfresh : Fresh edit (base ++ run) back) (hbase : base = [] ∨ base.getLast? = some ')')
    (hrest : Answered (some [')']) (tokens rest) (tokens after)) :
    Answered (tokens base).getLast? (tokens (run ++ back)) (tokens (run ++ (new ++ after))) := by
  have hword := hr.any_isWord_run
  rw [hr.rest_text, tokens_between hr.old_eq hword, tokens_between hr.new_eq hword]
  refine .answer hr.answer (fun hno => ?_) hrest
  rw [getLast?_toList_append, ← tokens_append (apart_of_base hbase run)]
  exact hr.getLast?_ne_return hfresh hno

/-- Where the edits are after the first character of an answer, of which the rest is dropped. -/
theorem ReplacesAt.onCourse {r old rest new : Text}
    (hr : ReplacesAt edit (.between front (c :: r)) old rest new) :
    OnCourse edit (old.length - 1) (front ++ [c]) r ∧ front ++ [c] ++ r.take (old.length - 1) = front ++ old ∧
      r.drop (old.length - 1) = rest ∧ ∃ s, front ++ old = s ++ [')'] := by
  obtain ⟨s, rfl⟩ := hr.old_eq
  have htext : c :: r = 'r' :: ((s ++ [')']) ++ rest) := hr.rest_text
  obtain ⟨rfl, rfl⟩ := List.cons_eq_cons.1 htext
  have hlength : ('r' :: (s ++ [')'])).length - 1 = (s ++ [')']).length := rfl
  have hcovered : Covered ((s ++ [')']).length + 1) ('r' :: (s ++ [')'] ++ rest)) :=
    ⟨'r' :: s, ')', rest, by simp, rfl, by simp⟩
  rw [hlength, List.take_left, List.drop_left]
  exact ⟨onCourse_of_covered hcovered, by simp, rfl, front ++ 'r' :: s, by simp⟩

/-- The tokens after the edits are those before, but for the answers. -/
theorem answered_segmentsFrom (he : EditsAnswers edit) (t front base run : Text) (dropped copied : Nat)
    (hcourse : OnCourse edit (dropped + copied) front t)
    (hfront : front ++ t.take dropped = base ++ run) (hrun : dropped ≠ 0 → run = [])
    (hbase : base = [] ∨ base.getLast? = some ')') :
    Answered (tokens base).getLast? (tokens (run ++ t.drop dropped))
      (tokens (run ++ (segmentsFrom edit dropped copied front.getLast? front.length t).flatMap
        Segment.after)) := by
  -- `base` ends with the answer replaced last; `run` is kept since then, and not yet cut into tokens.
  induction t generalizing front base run dropped copied with
  | nil =>
    simp only [segmentsFrom, List.drop_nil, List.flatMap_nil]
    exact .same _ _
  | cons c r ih =>
    have hlast : (front ++ [c]).getLast? = some c := List.getLast?_concat
    have hlength : (front ++ [c]).length = front.length + 1 := by simp
    have keep (copied : Nat) (hcourse : OnCourse edit copied (front ++ [c]) r) (hdropped : dropped = 0) :
        Answered (tokens base).getLast? (tokens (run ++ c :: r)) (tokens (run ++ c ::
          (segmentsFrom edit 0 copied (some c) (front.length + 1) r).flatMap Segment.after)) := by
      subst hdropped
      rw [List.take_zero, List.append_nil] at hfront
      have := ih (front ++ [c]) base (run ++ [c]) 0 copied (by rwa [Nat.zero_add])
        (by rw [hfront]; simp) (absurd rfl) hbase
      rwa [hlast, hlength, List.append_assoc, List.append_assoc] at this
    cases dropped with
    | succ dropped =>
      have hcovered : Covered (dropped + copied + 1) (c :: r) := by
        unfold OnCourse at hcourse
        rw [if_neg (by omega)] at hcourse
        rwa [Nat.add_right_comm] at hcourse
      have := ih (front ++ [c]) base run dropped copied (onCourse_of_covered hcovered)
        (by rw [← hfront]; simp) (fun _ => hrun (Nat.succ_ne_zero _)) hbase
      rwa [hlast, hlength] at this
    | zero =>
      cases copied with
      | succ copied =>
        have hcovered : Covered (copied + 1) (c :: r) := by
          unfold OnCourse at hcourse
          rwa [if_neg (by omega), Nat.zero_add] at hcourse
        exact keep copied (onCourse_of_covered hcovered) rfl
      | zero =>
        have hfresh : Fresh edit front (c :: r) := hcourse
        unfold segmentsFrom
        split
        · rename_i n new hedit
          obtain ⟨old, rest, rfl, hr⟩ := he.replace _ _ _ hedit
          obtain ⟨hcourse, htake, hdrop, s, hend⟩ := hr.onCourse
          -- What is dropped belongs to the new base, so nothing of it is left to keep.
          have hnext := ih (front ++ [c]) (front ++ old) [] (old.length - 1) 0 hcourse
            (by rw [htake, List.append_nil]) (fun _ => rfl) (.inr (by rw [hend, List.getLast?_concat]))
          rw [hlast, hlength, hend, tokens_concat_parenthesis, List.getLast?_concat, List.nil_append,
            List.nil_append, hdrop] at hnext
          rw [List.take_zero, List.append_nil] at hfront
          subst hfront
          exact hr.answered hfresh hbase hnext
        · rename_i n hedit
          obtain ⟨name, rest, hname, rfl⟩ := he.keep _ _ hedit
          exact keep _ (onCourse_of_covered ⟨name, '(', rest, hname, rfl, rfl⟩) rfl
        · rename_i hedit
          exact keep 0 (fresh_concat hfresh hedit) rfl

end BackendMigration.Adaptation
