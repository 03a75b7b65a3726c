import BackendMigration.Adaptation.Call
import BackendMigration.Proofs.Pattern.Matches
import BackendMigration.Proofs.Pattern.Takes
import BackendMigration.Proofs.Source.Block
import BackendMigration.Proofs.Source.Nesting

/-! The balance that all matches of a pattern have. -/
namespace BackendMigration

open Source

/-- The balance of every character of a class; none if they may differ. -/
def CharClass.balance? (d : Delimiters) : CharClass → Option Int
  | only c => some (balance d [c])
  | k => if k.holds d.opening || k.holds d.closing then none else some 0

/-- The balance of every text that a pattern takes; none if they may differ. -/
def Pattern.balance? (d : Delimiters) : Pattern → Option Int
  | one k => k.balance? d
  | seq p q => do return (← p.balance? d) + (← q.balance? d)
  | alt p q => if p.balance? d = q.balance? d then p.balance? d else none
  | many p => if p.balance? d = some 0 then some 0 else none
  | part _ p => p.balance? d
  | nothing | wordEdge | notAfter _ | before _ | atEnd => some 0

variable {d : Delimiters} {n : Int}

theorem CharClass.balance_of_holds {k : CharClass} {c : Char} (hk : k.balance? d = some n)
    (hc : k.holds c = true) : balance d [c] = n := by
  have other (h : (if k.holds d.opening || k.holds d.closing then none else some (0 : Int)) = some n) :
      balance d [c] = n := by
    split at h
    · cases h
    · rename_i hn
      simp only [Bool.or_eq_true, not_or, Bool.not_eq_true] at hn
      obtain rfl : 0 = n := by simpa using h
      refine balance_other ?_ ?_ <;> rintro rfl <;> simp_all
  cases k with
  | only a =>
    obtain rfl : c = a := by simpa using hc
    simpa [balance?] using hk
  | _ => exact other hk

theorem Pattern.Takes.balance_eq {p : Pattern} {c c' : Cursor} (h : Takes p c c')
    (hp : p.balance? d = some n) : ∃ taken, c.rest = taken ++ c'.rest ∧ balance d taken = n := by
  induction h generalizing n with
  | nothing | wordEdge | notAfter | before | atEnd =>
    obtain rfl : 0 = n := by simpa [balance?] using hp
    exact ⟨[], rfl, balance_nil⟩
  | one hs =>
    unfold Cursor.step? at hs
    split at hs
    · cases hs
    · rename_i a r hr
      split at hs
      · rename_i ha
        cases hs
        exact ⟨[a], hr, CharClass.balance_of_holds hp ha⟩
      · cases hs
  | seq _ _ ihp ihq =>
    simp only [balance?, Option.pure_def, Option.bind_eq_bind, Option.bind_eq_some_iff,
      Option.some.injEq] at hp
    obtain ⟨m, hm, k, hk, rfl⟩ := hp
    obtain ⟨s, hs, hsb⟩ := ihp hm
    obtain ⟨t, ht, htb⟩ := ihq hk
    exact ⟨s ++ t, by rw [hs, ht, List.append_assoc], by rw [balance_append, hsb, htb]⟩
  | left _ ih =>
    simp only [balance?] at hp
    split at hp
    · exact ih hp
    · cases hp
  | right _ ih =>
    simp only [balance?] at hp
    split at hp
    · rename_i he
      exact ih (he ▸ hp)
    · cases hp
  | done p c =>
    simp only [balance?] at hp
    split at hp
    · obtain rfl : 0 = n := by simpa using hp
      exact ⟨[], rfl, balance_nil⟩
    · cases hp
  | again _ _ _ ihp ihq =>
    obtain ⟨t, ht, htb⟩ := ihq hp
    simp only [balance?] at hp
    split at hp
    · rename_i hz
      obtain ⟨s, hs, hsb⟩ := ihp hz
      exact ⟨s ++ t, by rw [hs, ht, List.append_assoc], by rw [balance_append, hsb, htb, Int.zero_add]⟩
    · cases hp
  | part _ ih => exact ih hp

/-- The text of a match has the balance of its pattern. -/
theorem Pattern.balance_of_matchAt? {p : Pattern} {c : Cursor} {m : Match}
    (h : p.matchAt? c = some m) (hp : p.balance? d = some n) : balance d m.text = n := by
  obtain ⟨c', ht, _, _, hr, _⟩ := takes_of_matchAt? h
  obtain ⟨taken, hr', hb⟩ := ht.balance_eq hp
  rw [← hb, List.append_cancel_right (hr.symm.trans hr')]

end BackendMigration

/-! Edits of calls keep the balance of the text they replace. -/
namespace BackendMigration

open Source

namespace Adaptation

/-- Every replacement of an edit can stand for the text it replaces. -/
def EditKeepsBalance (edit : Cursor → Option Edit) : Prop :=
  ∀ c n new, edit c = some (.replace n new) → KeepsBalance (c.rest.take (n - 1 + 1)) new

variable {edit : Cursor → Option Edit} {p : Pattern} {c : Cursor} {m : Match}

theorem EditKeepsBalance.segmentsFrom (he : EditKeepsBalance edit) (dropped copied : Nat)
    (previous : Option Char) (offset : Nat) (t : Text) :
    KeepsBalance ((segmentsFrom edit dropped copied previous offset t).flatMap Segment.before)
      ((segmentsFrom edit dropped copied previous offset t).flatMap Segment.after) := by
  have keep (c : Char) {r : List Segment} (h : KeepsBalance (r.flatMap Segment.before)
      (r.flatMap Segment.after)) : KeepsBalance ((Segment.kept c :: r).flatMap Segment.before)
        ((Segment.kept c :: r).flatMap Segment.after) :=
    (KeepsBalance.refl [c]).append h
  induction t generalizing dropped copied previous offset with
  | nil => simpa [Adaptation.segmentsFrom] using KeepsBalance.refl []
  | cons c r ih =>
    cases dropped with
    | succ dropped => exact ih dropped copied (some c) (offset + 1)
    | zero =>
      cases copied with
      | succ copied => exact keep c (ih 0 copied (some c) (offset + 1))
      | zero =>
        unfold Adaptation.segmentsFrom
        split
        · rename_i n new h
          exact (he _ n new h).append (ih (n - 1) 0 (some c) (offset + 1))
        · rename_i n _
          exact keep c (ih 0 (n - 1) (some c) (offset + 1))
        · exact keep c (ih 0 0 (some c) (offset + 1))

theorem EditKeepsBalance.edited (he : EditKeepsBalance edit) (t : Text) :
    KeepsBalance t (edited edit t) := by
  have h := he.segmentsFrom 0 0 none 0 t
  rwa [flatMap_before_segmentsFrom, List.drop_zero] at h

/-- Every match of the pattern leaves the parenthesis at its end open, and no other bracket. -/
def OpensCall (p : Pattern) : Prop :=
  0 < p.minLength ∧ ∀ d ∈ bracketPairs, p.balance? d = some (balance d ['('])

/-- A name with the argument list after it. -/
def callText (name inner : Text) : Text := name ++ '(' :: (inner ++ [')'])

theorem callText_eq (name inner : Text) : callText name inner = name ++ ['('] ++ (inner ++ [')']) := by
  simp [callText]

theorem callText_eq_concat (name inner : Text) :
    callText name inner = (name ++ '(' :: inner) ++ [')'] := by
  simp [callText]

/-- What is replaced is a call that closes and that is converted. -/
theorem exists_of_callEdit {convert : List Text → Match → Option Text} {n : Nat} {new : Text}
    (h : callEdit p convert c = some (.replace n new)) :
    ∃ m args, p.matchAt? c = some m ∧ argumentList? (fromLast m c) = some args ∧
      convert (argumentTexts args.inner) m = some new ∧ n = m.stop - m.start - 1 + args.length := by
  obtain ⟨m, hm, he⟩ := Option.map_eq_some_iff.1 h
  dsimp only at he
  split at he
  · cases he
  · rename_i args ha
    split at he
    · cases he
    · rename_i new' hnew
      cases he
      exact ⟨m, args, hm, ha, hnew, rfl⟩

/-- What is replaced is a call that sets the status and an answer on it, which both close. -/
theorem exists_of_statusEdit {method : ResponseMethod} {n : Nat} {new : Text}
    (h : statusEdit method c = some (.replace n new)) :
    ∃ m status chained payload, statusCall.matchAt? c = some m ∧
      argumentList? (fromLast m c) = some status ∧
      chainedCall.matchAt? (c.advance (m.stop - m.start - 1 + status.length)) = some chained ∧
      argumentList? (fromLast chained (c.advance (m.stop - m.start - 1 + status.length))) =
        some payload ∧
      n = m.stop - m.start - 1 + status.length + (chained.stop - chained.start - 1) +
        payload.length ∧
      new = answerWithStatus method (Text.strip status.inner) (Text.strip payload.inner) := by
  obtain ⟨m, hm, he⟩ := Option.map_eq_some_iff.1 h
  dsimp only at he
  split at he
  · cases he
  · rename_i status hstatus
    split at he
    · cases he
    · rename_i chained hchained
      split at he
      · cases he
      · split at he
        · cases he
        · rename_i payload hpayload
          obtain ⟨rfl, rfl⟩ := Edit.replace.inj he
          exact ⟨m, status, chained, payload, hm, hstatus, hchained, hpayload, rfl, rfl⟩

theorem argumentList?_eq_some {t : Text} {args : ArgumentList}
    (h : argumentList? t = some args) :
    ∃ rest, t = '(' :: (args.inner ++ ')' :: rest) ∧ args.length = args.inner.length + 2 ∧
      Nested .parentheses args.inner := by
  unfold argumentList? at h
  split at h
  · obtain ⟨n, hn, rfl⟩ := Option.map_eq_some_iff.1 h
    obtain ⟨inner, rest, rfl, rfl, hi⟩ := nested_of_closing? distinct_parentheses hn
    refine ⟨rest, ?_, ?_, ?_⟩
    · simp [Delimiters.parentheses]
    · simp
    · simpa using hi
  · cases h

theorem argumentList?_of_nested {inner : Text} (h : Nested .parentheses inner) (rest : Text) :
    argumentList? ('(' :: (inner ++ ')' :: rest)) = some ⟨inner, inner.length + 2⟩ := by
  have hclosing := closing?_of_depthAfter? distinct_parentheses
    ((nested_iff distinct_parentheses).1 h) rest
  have hclosing : closing? .parentheses 0 (inner ++ ')' :: rest) = some (inner.length + 1) := hclosing
  simp [argumentList?, hclosing]

/-- A call that closes is its name and its arguments. -/
theorem text_of_call (hp : 0 < p.minLength) (hm : p.matchAt? c = some m) {args : ArgumentList}
    (ha : argumentList? (fromLast m c) = some args) :
    ∃ name rest, m.text = name ++ ['('] ∧ c.rest = callText name args.inner ++ rest ∧
      m.stop - m.start - 1 + args.length = (callText name args.inner).length ∧
      Nested .parentheses args.inner := by
  obtain ⟨c', ht, hs, he, hr, hl⟩ := Pattern.takes_of_matchAt? hm
  obtain ⟨rest, hrest, hlength, hi⟩ := argumentList?_eq_some ha
  have hpos : 0 < m.text.length := by
    have := ht.minLength_le
    omega
  obtain ⟨name, last, hname⟩ : ∃ name last, m.text = name ++ [last] :=
    ⟨_, _, (List.dropLast_concat_getLast (List.ne_nil_of_length_pos hpos)).symm⟩
  have hlen : m.stop - m.start - 1 = name.length := by
    rw [hl, hname, List.length_append, List.length_singleton]
    omega
  rw [fromLast, hlen, hr, hname, List.append_assoc, List.drop_left] at hrest
  obtain ⟨rfl, hrest⟩ := List.cons.inj hrest
  refine ⟨name, rest, hname, ?_, ?_, hi⟩
  · rw [hr, hname]
    simp [callText, ← hrest]
  · rw [hlen, hlength]
    simp [callText]

/-- A status call and the answer on it, which are replaced as one text. -/
theorem text_of_statusEdit {method : ResponseMethod} {n : Nat} {new : Text}
    (h : statusEdit method c = some (.replace n new)) :
    ∃ m c' m' name status name' payload rest, statusCall.matchAt? c = some m ∧
      m.text = name ++ ['('] ∧ chainedCall.matchAt? c' = some m' ∧ m'.text = name' ++ ['('] ∧
      c.rest = callText name status ++ callText name' payload ++ rest ∧
      n = (callText name status ++ callText name' payload).length ∧
      Nested .parentheses status ∧ Nested .parentheses payload ∧
      new = answerWithStatus method (Text.strip status) (Text.strip payload) := by
  obtain ⟨m, status, chained, payload, hm, hstatus, hchained, hpayload, rfl, rfl⟩ :=
    exists_of_statusEdit h
  obtain ⟨name, rest, hname, hr, hl, hs⟩ := text_of_call (by decide) hm hstatus
  obtain ⟨name', rest', hname', hr', hl', hp⟩ := text_of_call (by decide) hchained hpayload
  rw [Cursor.rest_advance, hr, hl, List.drop_left] at hr'
  refine ⟨m, _, chained, name, status.inner, name', payload.inner, rest', hm, hname, hchained,
    hname', ?_, ?_, hs, hp, rfl⟩
  · rw [hr, hr', List.append_assoc]
  · rw [List.length_append]
    omega

/-- In the name that a call begins with no bracket stays open. -/
theorem balance_name (hp : OpensCall p) (hm : p.matchAt? c = some m) {name : Text}
    (hname : m.text = name ++ ['(']) : ∀ d ∈ bracketPairs, balance d name = 0 := by
  intro d hd
  have hb := Pattern.balance_of_matchAt? hm (hp.2 d hd)
  rw [hname, balance_append] at hb
  omega

theorem balance_callText {d : Delimiters} (hd : d ∈ bracketPairs) {name : Text}
    (hn : balance d name = 0) (inner : Text) : balance d (callText name inner) = balance d inner := by
  have all : ∀ d ∈ bracketPairs, balance d ['('] + balance d [')'] = 0 := by decide
  have := all d hd
  rw [callText, balance_append, balance_cons, balance_append]
  omega

/-- Text around an argument list that closes all that it opens can stand for the name before it. -/
theorem keepsBalance_callText {name inner front middle back : Text}
    (hname : ∀ d ∈ bracketPairs, balance d name = 0) (hi : Nested .parentheses inner)
    (hm : brackets middle = brackets inner)
    (hsum : ∀ d ∈ bracketPairs, balance d (front ++ back) = 0)
    (hdepth : depthAfter? .parentheses 0 (front ++ back) = some 0) :
    KeepsBalance (callText name inner) (front ++ middle ++ back) := by
  have hp : Delimiters.parentheses ∈ bracketPairs := by decide
  have hn := hi.of_brackets_eq hp hm
  rw [← depthAfter?_insert distinct_parentheses hn] at hdepth
  refine .of_depthAfter? (fun d hd => ?_) hdepth
  have := hsum d hd
  rw [balance_append] at this
  rw [balance_callText hd (hname d hd), ← balance_brackets hd inner, ← hm, balance_brackets hd,
    balance_append, balance_append]
  omega

end Adaptation
end BackendMigration
