import BackendMigration.Proofs.Pattern.Takes

/-! Where a pattern occurs: a match is found wherever the pattern can take something, and what stands
in front of a text adds nothing if no match can begin in it. -/
namespace BackendMigration

namespace Cursor

/-- Two places before one text, after the same character or after one that does not count. -/
structure Alike (a : Char) (c d : Cursor) : Prop where
  rest_eq : c.rest = d.rest
  previous_eq : c.previous.filter (· != a) = d.previous.filter (· != a)

variable {a : Char} {c c' d : Cursor}

theorem Alike.symm (h : c.Alike a d) : d.Alike a c := ⟨h.rest_eq.symm, h.previous_eq.symm⟩

theorem of_step?_eq_some {k : CharClass} {b : Char} {r : Text} (h : c.step? k = some c')
    {t : Text} (hr : c.rest = b :: r ++ t) : k.holds b = true ∧ c'.rest = r ++ t := by
  unfold step? at h
  rw [hr] at h
  dsimp only [List.cons_append] at h
  split at h
  · rename_i hb
    cases h
    exact ⟨hb, rfl⟩
  · cases h

theorem Alike.exists_step? {k : CharClass} (hd : c.Alike a d) (h : c.step? k = some c') :
    ∃ d', d.step? k = some d' ∧ c'.Alike a d' := by
  have hrest := hd.rest_eq
  unfold step? at h ⊢
  rw [← hrest]
  split at h
  · cases h
  · rename_i b r _
    split at h
    · rename_i hb
      cases h
      exact ⟨_, if_pos hb, ⟨rfl, rfl⟩⟩
    · cases h

theorem Alike.any_previous_eq {f : Char → Bool} (hd : c.Alike a d) (hf : f a = false) :
    c.previous.any f = d.previous.any f := by
  have hfilter (o : Option Char) : o.any f = (o.filter (· != a)).any f := by
    cases o with
    | none => rfl
    | some b =>
      by_cases hb : b = a
      · simp [hb, hf]
      · simp [Option.filter, hb]
  rw [hfilter, hd.previous_eq, ← hfilter]

theorem Alike.isWordEdge_eq (hd : c.Alike a d) (ha : Text.isWord a = false) :
    c.isWordEdge = d.isWordEdge := by
  rw [isWordEdge, isWordEdge, hd.any_previous_eq ha, hd.rest_eq]

/-- A place in a text and the same place after a text in front. -/
theorem alike_append {f : Text} (hf : f.getLast? = some a) (front back : Text) :
    Alike a (between front back) (between (f ++ front) back) := by
  refine ⟨rfl, ?_⟩
  rw [between, between, List.getLast?_append, hf]
  cases front.getLast? <;> simp [Option.filter]

end Cursor

namespace Pattern

variable {α : Type} {p q : Pattern} {c c' d : Cursor}

/-- A match is found, and by a repetition within any bound that the text allows. -/
def Finds (p : Pattern) (k : Cursor → Parts → Option α) (c : Cursor) : Prop :=
  (∀ g, (p.matchThen k c g).isSome = true) ∧
    ∀ q, p = many q → ∀ bound, c.rest.length ≤ bound → ∀ g,
      (repeatThen q.matchThen k bound c g).isSome = true

theorem Takes.length_lt (h : Takes p c c') (hlt : c.offset < c'.offset) :
    c'.rest.length < c.rest.length := by
  obtain ⟨taken, hr, ho⟩ := h.rest_eq
  rw [hr, List.length_append]
  omega

/-- A repetition finds a match if its bounded search does. -/
theorem finds_many {k : Cursor → Parts → Option α}
    (h : ∀ bound, c.rest.length ≤ bound → ∀ g, (repeatThen p.matchThen k bound c g).isSome = true) :
    Finds (many p) k c := by
  constructor
  · exact h c.rest.length (Nat.le_refl _)
  · intro q hq
    obtain rfl := Pattern.many.inj hq
    exact h

/-- Where a pattern can lead on to a place that is accepted, a match is found. -/
theorem Takes.finds (h : Takes p c c') (k : Cursor → Parts → Option α)
    (hk : ∀ g, (k c' g).isSome = true) : Finds p k c := by
  induction h generalizing k with
  | nothing => exact ⟨hk, fun _ h => Pattern.noConfusion h⟩
  | one hs => exact ⟨fun g => by simp [matchThen, hs, hk], fun _ h => Pattern.noConfusion h⟩
  | seq _ _ ihp ihq => exact ⟨(ihp _ (ihq k hk).1).1, fun _ h => Pattern.noConfusion h⟩
  | left _ ih =>
    refine ⟨fun g => ?_, fun _ h => Pattern.noConfusion h⟩
    obtain ⟨a, ha⟩ := Option.isSome_iff_exists.1 ((ih k hk).1 g)
    simp [matchThen, ha]
  | right _ ih =>
    refine ⟨fun g => ?_, fun _ h => Pattern.noConfusion h⟩
    simp only [matchThen]
    split
    · rfl
    · exact (ih k hk).1 g
  | done p c =>
    apply finds_many
    intro bound _ g
    cases bound with
    | zero => exact hk g
    | succ bound =>
      unfold repeatThen
      split
      · rfl
      · exact hk g
  | @again p c c₁ c' hp hlt _ ihp ihq =>
    apply finds_many
    intro bound hbound g
    have hshort := hp.length_lt hlt
    obtain ⟨bound, rfl⟩ := Nat.exists_eq_add_one_of_ne_zero (by omega : bound ≠ 0)
    have hgo := (ihq k hk).2 p rfl bound (by omega)
    have hstep := (ihp (fun c' g' => if c.offset < c'.offset then
      repeatThen p.matchThen k bound c' g' else none) (fun g => by rw [if_pos hlt]; exact hgo g)).1 g
    unfold repeatThen
    split
    · rfl
    · rename_i hnone
      simp [hnone] at hstep
  | @part name p c c' _ ih =>
    refine ⟨fun g => ?_, fun _ h => Pattern.noConfusion h⟩
    exact (ih (fun c' g => k c' ((name, c.rest.take (c'.offset - c.offset)) :: g)) fun _ => hk _).1 g
  | wordEdge h => exact ⟨fun g => by simp [matchThen, h, hk], fun _ h => Pattern.noConfusion h⟩
  | notAfter h => exact ⟨fun g => by simp [matchThen, h, hk], fun _ h => Pattern.noConfusion h⟩
  | before h => exact ⟨fun g => by simp [matchThen, h, hk], fun _ h => Pattern.noConfusion h⟩
  | atEnd h => exact ⟨fun g => by simp only [matchThen, h, if_true, hk], fun _ h => Pattern.noConfusion h⟩

/-- There is a match at a place exactly if the pattern can take something there. -/
theorem isSome_matchAt?_iff : (p.matchAt? c).isSome = true ↔ ∃ c', Takes p c c' := by
  constructor
  · intro h
    obtain ⟨m, hm⟩ := Option.isSome_iff_exists.1 h
    obtain ⟨c', ht, _⟩ := takes_of_matchAt? hm
    exact ⟨c', ht⟩
  · rintro ⟨c', ht⟩
    exact (ht.finds _ fun _ => rfl).1 []

theorem isSome_searchFrom?_iff (previous : Option Char) (offset : Nat) (t : Text) :
    (p.searchFrom? previous offset t).isSome = true ↔ ∃ front back c', t = front ++ back ∧
      Takes p ⟨front.getLast?.or previous, back, offset + front.length⟩ c' := by
  induction t generalizing previous offset with
  | nil =>
    rw [searchFrom?, isSome_matchAt?_iff]
    constructor
    · rintro ⟨c', ht⟩
      exact ⟨[], [], c', rfl, ht⟩
    · rintro ⟨front, back, c', he, ht⟩
      obtain ⟨rfl, rfl⟩ := List.append_eq_nil_iff.1 he.symm
      exact ⟨c', ht⟩
  | cons a r ih =>
    have hfirst : (p.matchAt? ⟨previous, a :: r, offset⟩).isSome = true ↔
        ∃ c', Takes p ⟨previous, a :: r, offset⟩ c' := isSome_matchAt?_iff
    have hsearch : (p.searchFrom? previous offset (a :: r)).isSome = true ↔
        (p.matchAt? ⟨previous, a :: r, offset⟩).isSome = true ∨
          (p.searchFrom? (some a) (offset + 1) r).isSome = true := by
      rw [searchFrom?]
      split
      · rename_i m hm
        simp [hm]
      · rename_i hm
        simp [hm]
    have hlast (front : Text) :
        (a :: front).getLast?.or previous = front.getLast?.or (some a) := by
      rw [List.getLast?_cons]
      cases front.getLast? <;> rfl
    rw [hsearch, hfirst, ih]
    constructor
    · rintro (⟨c', ht⟩ | ⟨front, back, c', rfl, ht⟩)
      · exact ⟨[], a :: r, c', rfl, ht⟩
      · refine ⟨a :: front, back, c', rfl, ?_⟩
        rw [hlast, List.length_cons, Nat.add_comm front.length, ← Nat.add_assoc]
        exact ht
    · rintro ⟨front, back, c', he, ht⟩
      cases front with
      | nil =>
        obtain rfl : a :: r = back := he
        exact .inl ⟨c', ht⟩
      | cons b front =>
        obtain ⟨rfl, rfl⟩ := List.cons.inj he
        refine .inr ⟨front, back, c', rfl, ?_⟩
        rw [hlast, List.length_cons, Nat.add_comm front.length, ← Nat.add_assoc] at ht
        exact ht

/-- A pattern occurs in a text exactly if it can take something at some place of it. -/
theorem occursIn_iff {t : Text} : p.occursIn t = true ↔ ∃ front back c', t = front ++ back ∧
    Takes p (.between front back) c' := by
  have h := isSome_searchFrom?_iff (p := p) none 0 t
  simpa [occursIn, search?, Cursor.start, Cursor.between] using h

/-- No condition of the pattern tells a character before a match from none. -/
def overlooks (a : Char) : Pattern → Bool
  | seq p q | alt p q => p.overlooks a && q.overlooks a
  | many p | part _ p => p.overlooks a
  | wordEdge => !Text.isWord a
  | notAfter k => !k.holds a
  | nothing | one _ | before _ | atEnd => true

theorem Takes.exists_alike {a : Char} (h : Takes p c c') (hp : p.overlooks a = true)
    (hd : c.Alike a d) : ∃ d', Takes p d d' ∧ c'.Alike a d' := by
  induction h generalizing d with
  | nothing => exact ⟨d, .nothing d, hd⟩
  | one hs =>
    obtain ⟨d', hs', hd'⟩ := hd.exists_step? hs
    exact ⟨d', .one hs', hd'⟩
  | seq _ _ ihp ihq =>
    obtain ⟨hp, hq⟩ := Bool.and_eq_true_iff.1 hp
    obtain ⟨d₁, h₁, hd₁⟩ := ihp hp hd
    obtain ⟨d', h', hd'⟩ := ihq hq hd₁
    exact ⟨d', .seq h₁ h', hd'⟩
  | left _ ih =>
    obtain ⟨d', h', hd'⟩ := ih (Bool.and_eq_true_iff.1 hp).1 hd
    exact ⟨d', .left h', hd'⟩
  | right _ ih =>
    obtain ⟨d', h', hd'⟩ := ih (Bool.and_eq_true_iff.1 hp).2 hd
    exact ⟨d', .right h', hd'⟩
  | done => exact ⟨d, .done _ d, hd⟩
  | again hfirst hlt _ ihp ihq =>
    obtain ⟨d₁, h₁, hd₁⟩ := ihp hp hd
    obtain ⟨d', h', hd'⟩ := ihq hp hd₁
    refine ⟨d', .again h₁ ?_ h', hd'⟩
    have hshort := hfirst.length_lt hlt
    obtain ⟨taken, hr, ho⟩ := h₁.rest_eq
    rw [hd.rest_eq, hd₁.rest_eq, hr, List.length_append] at hshort
    omega
  | part _ ih =>
    obtain ⟨d', h', hd'⟩ := ih hp hd
    exact ⟨d', .part h', hd'⟩
  | wordEdge he => exact ⟨d, .wordEdge (hd.isWordEdge_eq (by simpa [overlooks] using hp) ▸ he), hd⟩
  | notAfter hn => exact ⟨d, .notAfter (hd.any_previous_eq (by simpa [overlooks] using hp) ▸ hn), hd⟩
  | before hb => exact ⟨d, .before (hd.rest_eq ▸ hb), hd⟩
  | atEnd he => exact ⟨d, .atEnd (hd.rest_eq ▸ he), hd⟩

/-- Repeat a test as often as something is passed, at most `bound` times. -/
def mayRepeat (step : (Text → Bool) → Text → Bool) (go : Text → Bool) : Nat → Text → Bool
  | 0, _ => true
  | bound + 1, s =>
    go s || step (fun s' => s'.length < s.length && mayRepeat step go bound s') s

/-- Something can be taken from a text that begins with `s` and then goes on in any way; `go` says
what can come after it while it ends in `s`. Conditions on neighbouring characters are passed over. -/
def mayThen : Pattern → (Text → Bool) → Text → Bool
  | one _, _, [] => true
  | one k, go, a :: r => k.holds a && go r
  | seq p q, go, s => p.mayThen (q.mayThen go) s
  | alt p q, go, s => p.mayThen go s || q.mayThen go s
  | many p, go, s => mayRepeat p.mayThen go s.length s
  | part _ p, go, s => p.mayThen go s
  | nothing, go, s | wordEdge, go, s | notAfter _, go, s | before _, go, s | atEnd, go, s => go s

/-- A match may begin where a text stands, whatever comes after it. -/
def mayBegin (p : Pattern) (s : Text) : Bool := p.mayThen (fun _ => true) s

/-- No match can begin in a text, whatever comes after it. -/
def avoids (p : Pattern) : Text → Bool
  | [] => true
  | a :: r => !p.mayBegin (a :: r) && p.avoids r

theorem mayBegin_drop_of_avoids {f : Text} (h : p.avoids f = true) {n : Nat} (hn : n < f.length) :
    p.mayBegin (f.drop n) = false := by
  induction f generalizing n with
  | nil => exact absurd hn (Nat.not_lt_zero n)
  | cons a r ih =>
    rw [avoids, Bool.and_eq_true, Bool.not_eq_true'] at h
    cases n with
    | zero => exact h.1
    | succ n => exact ih h.2 (Nat.lt_of_succ_lt_succ hn)

/-- What is passed by a test, and by a repetition within any bound that the text allows. -/
def Passes (p : Pattern) (go : Text → Bool) (s : Text) : Prop :=
  p.mayThen go s = true ∧
    ∀ q, p = many q → ∀ bound, s.length ≤ bound → mayRepeat q.mayThen go bound s = true

theorem passes_many {go : Text → Bool} {s : Text}
    (h : ∀ bound, s.length ≤ bound → mayRepeat p.mayThen go bound s = true) :
    Passes (many p) go s := by
  constructor
  · exact h s.length (Nat.le_refl _)
  · intro q hq
    obtain rfl := Pattern.many.inj hq
    exact h

theorem Takes.passes {t : Text} (h : Takes p c c') {s : Text} (hs : c.rest = s ++ t)
    {go : Text → Bool} (hgo : ∀ s', c'.rest = s' ++ t → go s' = true) : Passes p go s := by
  induction h generalizing s go with
  | nothing | wordEdge | notAfter | before | atEnd => exact ⟨hgo s hs, fun _ h => Pattern.noConfusion h⟩
  | one hstep =>
    refine ⟨?_, fun _ h => Pattern.noConfusion h⟩
    cases s with
    | nil => rfl
    | cons a r =>
      obtain ⟨ha, hrest⟩ := Cursor.of_step?_eq_some hstep hs
      simp [mayThen, ha, hgo r hrest]
  | seq _ _ ihp ihq => exact ⟨(ihp hs fun s' hs' => (ihq hs' hgo).1).1, fun _ h => Pattern.noConfusion h⟩
  | left _ ih => exact ⟨by simp [mayThen, (ih hs hgo).1], fun _ h => Pattern.noConfusion h⟩
  | right _ ih => exact ⟨by simp [mayThen, (ih hs hgo).1], fun _ h => Pattern.noConfusion h⟩
  | done =>
    apply passes_many
    intro bound _
    cases bound with
    | zero => rfl
    | succ bound => simp [mayRepeat, hgo s hs]
  | @again p c c₁ c' hfirst hlt _ ihp ihq =>
    apply passes_many
    intro bound hbound
    cases bound with
    | zero => rfl
    | succ bound =>
      have hshort := hfirst.length_lt hlt
      have hstep : Passes p (fun s' => s'.length < s.length && mayRepeat p.mayThen go bound s') s := by
        refine ihp hs fun s' hs' => ?_
        rw [hs, hs', List.length_append, List.length_append] at hshort
        have hgo := (ihq hs' hgo).2 p rfl bound (by omega)
        simp only [hgo, Bool.and_true, decide_eq_true_eq]
        omega
      simp [mayRepeat, hstep.1]
  | part _ ih => exact ⟨(ih hs hgo).1, fun _ h => Pattern.noConfusion h⟩

/-- A pattern that occurs in a text occurs in it also after one whose last character it overlooks. -/
theorem occursIn_append_of_overlooks {f t : Text} {a : Char} (hlast : f.getLast? = some a)
    (ho : p.overlooks a = true) (h : p.occursIn t = true) : p.occursIn (f ++ t) = true := by
  obtain ⟨front, back, c', rfl, ht⟩ := occursIn_iff.1 h
  obtain ⟨d', hd, -⟩ := ht.exists_alike ho (Cursor.alike_append hlast front back)
  exact occursIn_iff.2 ⟨f ++ front, back, d', by simp, hd⟩

/-- A text in front adds no match if none can begin in it. -/
theorem occursIn_append_of_avoids {f t : Text} {a : Char} (hlast : f.getLast? = some a)
    (ho : p.overlooks a = true) (hf : p.avoids f = true) :
    p.occursIn (f ++ t) = p.occursIn t := by
  rw [Bool.eq_iff_iff]
  refine ⟨fun h => ?_, occursIn_append_of_overlooks hlast ho⟩
  obtain ⟨front, back, c', he, ht⟩ := occursIn_iff.1 h
  by_cases hn : front.length < f.length
  · have hback : back = f.drop front.length ++ t := by
      have hdrop := congrArg (List.drop front.length) he
      rw [List.drop_left, List.drop_append_of_le_length (Nat.le_of_lt hn)] at hdrop
      exact hdrop.symm
    have := (ht.passes hback fun _ _ => rfl).1
    rw [← mayBegin, mayBegin_drop_of_avoids hf hn] at this
    cases this
  · obtain ⟨front', rfl⟩ : f <+: front :=
      List.prefix_of_prefix_length_le (List.prefix_append f t) ⟨back, he.symm⟩ (by omega)
    rw [List.append_assoc, List.append_cancel_left_eq] at he
    obtain ⟨d', hd, -⟩ := ht.exists_alike ho (Cursor.alike_append hlast front' back).symm
    exact occursIn_iff.2 ⟨front', back, d', he, hd⟩

end Pattern
end BackendMigration
