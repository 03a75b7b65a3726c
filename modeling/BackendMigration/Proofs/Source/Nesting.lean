import BackendMigration.Source.Arguments
import BackendMigration.Source.Block

/-! How deep a text is nested in the blocks of a pair of delimiters. -/
namespace BackendMigration.Source

def Delimiters.brackets : Delimiters := ⟨'[', ']'⟩

/-- A text is read from left to right, so the same character cannot open and close. -/
def Delimiters.Distinct (d : Delimiters) : Prop := d.opening ≠ d.closing

instance (d : Delimiters) : Decidable d.Distinct :=
  inferInstanceAs (Decidable (d.opening ≠ d.closing))

/-- The number of opening delimiters less the number of closing ones. -/
def balance (d : Delimiters) (t : Text) : Int := t.count d.opening - t.count d.closing

/-- Nothing is closed before it is opened, and all that is opened is closed. -/
def Nested (d : Delimiters) (t : Text) : Prop :=
  (∀ front, front <+: t → 0 ≤ balance d front) ∧ balance d t = 0

/-- How many blocks are open after a text that begins inside of `depth` blocks; none if it closes
one more. -/
def depthAfter? (d : Delimiters) : Nat → Text → Option Nat
  | depth, [] => some depth
  | depth, c :: r =>
    if c = d.opening then depthAfter? d (depth + 1) r
    else if c = d.closing then
      match depth with
      | 0 => none
      | depth + 1 => depthAfter? d depth r
    else depthAfter? d depth r

variable {d : Delimiters}

@[simp] theorem balance_nil : balance d [] = 0 := by simp [balance]

@[simp] theorem balance_append (s t : Text) : balance d (s ++ t) = balance d s + balance d t := by
  simp only [balance, List.count_append]
  omega

theorem balance_cons (c : Char) (t : Text) : balance d (c :: t) = balance d [c] + balance d t :=
  balance_append [c] t

theorem balance_opening (hd : d.Distinct) : balance d [d.opening] = 1 := by
  have h : ¬d.opening = d.closing := hd
  simp [balance, h]

theorem balance_closing (hd : d.Distinct) : balance d [d.closing] = -1 := by
  have h : ¬d.closing = d.opening := fun e => hd e.symm
  simp [balance, h]

theorem balance_other {c : Char} (ho : c ≠ d.opening) (hc : c ≠ d.closing) :
    balance d [c] = 0 := by
  simp [balance, ho, hc]

/-- The depth is counted as long as it does not fall below zero. -/
theorem depthAfter?_eq_some_iff (hd : d.Distinct) {depth n : Nat} {t : Text} :
    depthAfter? d depth t = some n ↔
      (∀ front, front <+: t → 0 ≤ depth + balance d front) ∧ (n : Int) = depth + balance d t := by
  induction t generalizing depth with
  | nil =>
    simp only [depthAfter?, Option.some.injEq, List.prefix_nil, forall_eq, balance_nil]
    omega
  | cons c r ih =>
    have fronts : (∀ front, front <+: c :: r → 0 ≤ depth + balance d front) ↔
        ∀ front, front <+: r → 0 ≤ depth + (balance d [c] + balance d front) := by
      constructor
      · intro h front hf
        have := h (c :: front) (List.prefix_cons_inj c |>.2 hf)
        rwa [balance_cons c front] at this
      · intro h front hf
        rcases List.prefix_cons_iff.1 hf with rfl | ⟨tail, rfl, ht⟩
        · simp
        · rw [balance_cons c tail]
          exact h tail ht
    rw [fronts, balance_cons c r]
    by_cases ho : c = d.opening
    · subst ho
      simp only [depthAfter?, if_true, ih, balance_opening hd]
      push_cast
      simp only [Int.add_assoc]
    · by_cases hc : c = d.closing
      · subst hc
        simp only [depthAfter?, ho, if_false, if_true, balance_closing hd]
        cases depth with
        | zero =>
          simp only [reduceCtorEq, false_iff, not_and]
          intro h
          have := h [] (List.nil_prefix)
          simp at this
        | succ depth =>
          rw [ih]
          push_cast
          simp only [Int.add_assoc, Int.add_neg_cancel_left, Int.reduceNeg]
      · simp only [depthAfter?, ho, hc, if_false, ih, balance_other ho hc, Int.zero_add]

theorem nested_iff (hd : d.Distinct) {t : Text} : Nested d t ↔ depthAfter? d 0 t = some 0 := by
  rw [depthAfter?_eq_some_iff hd, Nested]
  simp only [Int.natCast_zero, Int.zero_add, eq_comm]

theorem depthAfter?_append (depth : Nat) (s t : Text) :
    depthAfter? d depth (s ++ t) = (depthAfter? d depth s).bind (depthAfter? d · t) := by
  induction s generalizing depth with
  | nil => rfl
  | cons c r ih =>
    simp only [List.cons_append, depthAfter?]
    split
    · exact ih _
    · split
      · cases depth with
        | zero => rfl
        | succ depth => exact ih _
      · exact ih _

theorem depthAfter?_add {depth n : Nat} {t : Text} (h : depthAfter? d depth t = some n) (k : Nat) :
    depthAfter? d (depth + k) t = some (n + k) := by
  induction t generalizing depth with
  | nil =>
    obtain rfl : depth = n := by simpa [depthAfter?] using h
    rfl
  | cons c r ih =>
    simp only [depthAfter?] at h ⊢
    split at h
    · rename_i ho
      rw [if_pos ho, show depth + k + 1 = depth + 1 + k by omega]
      exact ih h
    · rename_i ho
      rw [if_neg ho]
      split at h
      · rename_i hc
        rw [if_pos hc]
        cases depth with
        | zero => simp at h
        | succ depth =>
          rw [show depth + 1 + k = depth + k + 1 by omega]
          exact ih h
      · rename_i hc
        rw [if_neg hc]
        exact ih h

/-- A nested text is read at any depth and leaves it as it was. -/
theorem depthAfter?_of_nested (hd : d.Distinct) {t : Text} (h : Nested d t) (depth : Nat) :
    depthAfter? d depth t = some depth := by
  simpa using depthAfter?_add ((nested_iff hd).1 h) depth

/-- A nested text can be put in anywhere. -/
theorem depthAfter?_insert (hd : d.Distinct) {t : Text} (h : Nested d t) (depth : Nat)
    (front back : Text) :
    depthAfter? d depth (front ++ t ++ back) = depthAfter? d depth (front ++ back) := by
  rw [List.append_assoc, depthAfter?_append, depthAfter?_append]
  congr 1
  funext k
  rw [depthAfter?_append, depthAfter?_of_nested hd h, Option.bind_some]

/-! The brackets of a text are all that its balance depends on. -/

/-- The three pairs of brackets. -/
def bracketPairs : List Delimiters := [.parentheses, .brackets, .braces]

def isBracket (c : Char) : Bool := isOpening c || isClosing c

/-- The brackets of a text, in order. -/
def brackets (t : Text) : Text := t.filter isBracket

variable {s t : Text}

@[simp] theorem brackets_nil : brackets [] = [] := rfl

@[simp] theorem brackets_append (s t : Text) : brackets (s ++ t) = brackets s ++ brackets t :=
  List.filter_append ..

theorem isBracket_of_mem_bracketPairs (hd : d ∈ bracketPairs) :
    isBracket d.opening = true ∧ isBracket d.closing = true := by
  have all : ∀ d ∈ bracketPairs, isBracket d.opening = true ∧ isBracket d.closing = true := by decide
  exact all d hd

theorem distinct_of_mem_bracketPairs (hd : d ∈ bracketPairs) : d.Distinct := by
  have all : ∀ d ∈ bracketPairs, d.Distinct := by decide
  exact all d hd

theorem balance_brackets (hd : d ∈ bracketPairs) (t : Text) : balance d (brackets t) = balance d t := by
  obtain ⟨ho, hc⟩ := isBracket_of_mem_bracketPairs hd
  rw [balance, balance, brackets, List.count_filter ho, List.count_filter hc]

theorem depthAfter?_brackets (hd : d ∈ bracketPairs) (depth : Nat) (t : Text) :
    depthAfter? d depth (brackets t) = depthAfter? d depth t := by
  obtain ⟨ho, hc⟩ := isBracket_of_mem_bracketPairs hd
  induction t generalizing depth with
  | nil => rfl
  | cons c r ih =>
    by_cases h : isBracket c = true
    · rw [brackets, List.filter_cons_of_pos h]
      simp only [depthAfter?]
      split
      · exact ih _
      · split
        · cases depth with
          | zero => rfl
          | succ depth => exact ih _
        · exact ih _
    · have hno : ¬c = d.opening := fun e => h (e ▸ ho)
      have hnc : ¬c = d.closing := fun e => h (e ▸ hc)
      rw [brackets, List.filter_cons_of_neg h]
      simp only [depthAfter?, hno, hnc, if_false]
      exact ih depth

theorem Nested.of_brackets_eq (hd : d ∈ bracketPairs) (hs : Nested d s)
    (h : brackets t = brackets s) : Nested d t := by
  have hdistinct := distinct_of_mem_bracketPairs hd
  rw [nested_iff hdistinct] at hs ⊢
  rw [← depthAfter?_brackets hd, h, depthAfter?_brackets hd, hs]

/-! White space and commas are no brackets. -/

theorem not_isBracket_of_isBlank {c : Char} (h : Text.isBlank c = true) : isBracket c = false := by
  refine Bool.eq_false_iff.2 fun hb => ?_
  simp only [isBracket, isOpening, isClosing, Bool.or_eq_true, beq_iff_eq] at hb
  rcases hb with ((rfl | rfl) | rfl) | ((rfl | rfl) | rfl) <;> revert h <;> decide

theorem not_isBracket_of_isQuote {c : Char} (h : isQuote c = true) : isBracket c = false := by
  simp only [isQuote, Bool.or_eq_true, beq_iff_eq] at h
  rcases h with (rfl | rfl) | rfl <;> decide

theorem brackets_dropWhile {p : Char → Bool} (hp : ∀ c, p c = true → isBracket c = false)
    (t : Text) : brackets (t.dropWhile p) = brackets t := by
  induction t with
  | nil => rfl
  | cons c r ih =>
    by_cases h : p c = true
    · rw [List.dropWhile_cons_of_pos h, ih, brackets, brackets,
        List.filter_cons_of_neg (by simp [hp c h])]
    · rw [List.dropWhile_cons_of_neg h]

theorem brackets_reverse (t : Text) : brackets t.reverse = (brackets t).reverse :=
  List.filter_reverse ..

theorem brackets_trim {p : Char → Bool} (hp : ∀ c, p c = true → isBracket c = false) (t : Text) :
    brackets (Text.trim p t) = brackets t := by
  rw [Text.trim, Text.trimEnd, Text.trimStart, brackets_reverse, brackets_dropWhile hp,
    brackets_reverse, List.reverse_reverse, brackets_dropWhile hp]

theorem brackets_strip (t : Text) : brackets (Text.strip t) = brackets t :=
  brackets_trim (fun _ => not_isBracket_of_isBlank) t

/-- Splitting an argument text loses no bracket and keeps their order. -/
theorem brackets_splitTextsFrom (quote : Option Char) (depth : Int) (current t : Text) :
    (splitTextsFrom quote depth current t).flatMap brackets = brackets (current.reverse ++ t) := by
  fun_induction splitTextsFrom quote depth current t with
  | case1 => simp [brackets_strip]
  | case6 depth current c r _ _ _ h ih =>
    have hc : brackets (c :: r) = brackets r := by rw [h.1]; rfl
    rw [List.flatMap_cons, ih, brackets_strip, brackets_append _ (c :: r), hc]
    rfl
  | _ => simp_all

theorem brackets_argumentTexts (t : Text) : (argumentTexts t).flatMap brackets = brackets t := by
  have h := brackets_splitTextsFrom none 0 [] t
  unfold argumentTexts
  split
  · rename_i he
    rw [he] at h
    simpa using h
  · simpa using h

/-! Stretches of text in place of others. -/

/-- One text can stand for another: each pair of brackets has the same balance, and what is nested in
parentheses stays nested. -/
structure KeepsBalance (old new : Text) : Prop where
  balance_eq : ∀ d ∈ bracketPairs, balance d new = balance d old
  depth_eq : ∀ depth n, depthAfter? .parentheses depth old = some n →
    depthAfter? .parentheses depth new = some n

namespace KeepsBalance

variable {old new : Text}

theorem refl (t : Text) : KeepsBalance t t := ⟨fun _ _ => rfl, fun _ _ h => h⟩

theorem trans {middle : Text} (h : KeepsBalance old middle) (h' : KeepsBalance middle new) :
    KeepsBalance old new :=
  ⟨fun d hd => (h'.balance_eq d hd).trans (h.balance_eq d hd),
    fun depth n hn => h'.depth_eq depth n (h.depth_eq depth n hn)⟩

theorem append {old' new' : Text} (h : KeepsBalance old new) (h' : KeepsBalance old' new') :
    KeepsBalance (old ++ old') (new ++ new') := by
  refine ⟨fun d hd => ?_, fun depth n hn => ?_⟩
  · rw [balance_append, balance_append, h.balance_eq d hd, h'.balance_eq d hd]
  · rw [depthAfter?_append] at hn ⊢
    obtain ⟨m, hm, hn⟩ := Option.bind_eq_some_iff.1 hn
    rw [h.depth_eq depth m hm]
    exact h'.depth_eq m n hn

theorem of_brackets_eq (h : brackets new = brackets old) : KeepsBalance old new := by
  have hp : Delimiters.parentheses ∈ bracketPairs := by decide
  refine ⟨fun d hd => ?_, fun depth n hn => ?_⟩
  · rw [← balance_brackets hd, h, balance_brackets hd]
  · rw [← depthAfter?_brackets hp, h, depthAfter?_brackets hp]
    exact hn

/-- A text that never closes more than it opens can stand for any text of the same balance. -/
theorem of_depthAfter? {depth : Nat} (hb : ∀ d ∈ bracketPairs, balance d new = balance d old)
    (h : Source.depthAfter? .parentheses 0 new = some depth) : KeepsBalance old new := by
  have hp : Delimiters.parentheses ∈ bracketPairs := by decide
  have hd := distinct_of_mem_bracketPairs hp
  refine ⟨hb, fun k n hn => ?_⟩
  have hold := ((depthAfter?_eq_some_iff hd).1 hn).2
  have hnew := ((depthAfter?_eq_some_iff hd).1 h).2
  have := hb _ hp
  obtain rfl : n = depth + k := by omega
  simpa using depthAfter?_add h k

theorem nested (h : KeepsBalance old new) (hn : Nested .parentheses old) :
    Nested .parentheses new := by
  rw [nested_iff (by decide)] at hn ⊢
  exact h.depth_eq 0 0 hn

end KeepsBalance

end BackendMigration.Source
