import BackendMigration.Proofs.Source.Block
import Mathlib.Order.Bounds.Basic
import Mathlib.Order.Lattice.Nat

/-! Where the first block of a text begins and ends, told by counting its delimiters. -/
namespace BackendMigration.Source

/-- A stretch of a text is a block. -/
def BlockAt (d : Delimiters) (t : Text) (s : Span) : Prop := s.stop ≤ t.length ∧ IsBlock d (s.slice t)

/-- The places at or after an offset that hold the opening delimiter. -/
def openings (d : Delimiters) (t : Text) (start : Int) : Set Nat :=
  {p | max start 0 ≤ p ∧ t[p]? = some d.opening}

/-- The ends of the stretches from a place on that hold as many opening as closing delimiters. -/
def levelEnds (d : Delimiters) (t : Text) (b : Nat) : Set Nat :=
  {q | b < q ∧ ((⟨b, q⟩ : Span).slice t).count d.opening = ((⟨b, q⟩ : Span).slice t).count d.closing}

variable {d : Delimiters} {t : Text} {start : Int} {b e : Nat} {s : Span}

/-! Blocks by the balance of their beginnings. -/

theorem balance_eq_zero_iff : balance d t = 0 ↔ t.count d.opening = t.count d.closing := by
  rw [balance]
  omega

theorem balance_pos_iff : 0 < balance d t ↔ t.count d.closing < t.count d.opening := by
  rw [balance]
  omega

theorem IsBlock.balance_eq_zero (hd : d.Distinct) {block : Text} (h : IsBlock d block) :
    balance d block = 0 := by
  obtain ⟨inner, rfl, -, hinner⟩ := h
  rw [balance_cons, balance_append, balance_opening hd, balance_closing hd, hinner]
  rfl

/-- A block is open everywhere before its end. -/
theorem IsBlock.balance_pos (hd : d.Distinct) {block front : Text} (h : IsBlock d block)
    (hf : front <+: block) (hne : front ≠ []) (hproper : front ≠ block) : 0 < balance d front := by
  obtain ⟨inner, rfl, hinner, -⟩ := h
  rcases List.prefix_cons_iff.1 hf with hnil | ⟨tail, rfl, ht⟩
  · exact absurd hnil hne
  · have htail : tail <+: inner := by
      rcases List.prefix_concat_iff.1 ht with hall | htail
      · exact absurd (congrArg (d.opening :: ·) hall) hproper
      · exact htail
    have := hinner tail htail
    rw [balance_cons, balance_opening hd]
    omega

theorem IsBlock.getLast?_eq {block : Text} (h : IsBlock d block) :
    block.getLast? = some d.closing := by
  obtain ⟨inner, rfl, -⟩ := h
  rw [← List.cons_append, List.getLast?_concat]

theorem IsBlock.ne_nil {block : Text} (h : IsBlock d block) : block ≠ [] := by
  obtain ⟨inner, rfl, -⟩ := h
  exact List.cons_ne_nil _ _

/-- A text that leaves a block open closes none of the blocks around it. -/
theorem balance_nonneg_of_closing?_eq_none (hd : d.Distinct) {depth : Nat} {front : Text}
    (h : closing? d depth t = none) (hf : front <+: t) : 0 ≤ depth + balance d front := by
  induction t generalizing depth front with
  | nil =>
    have hnil : front = [] := List.prefix_nil.1 hf
    simp [hnil]
  | cons c r ih =>
    rcases List.prefix_cons_iff.1 hf with rfl | ⟨tail, rfl, ht⟩
    · simp
    · rw [balance_cons]
      simp only [closing?] at h
      by_cases ho : c = d.opening
      · rw [if_pos ho, Option.map_eq_none_iff] at h
        have := ih h ht
        rw [ho, balance_opening hd]
        omega
      · rw [if_neg ho] at h
        by_cases hc : c = d.closing
        · rw [if_pos hc] at h
          cases depth with
          | zero => cases h
          | succ depth =>
            have := ih (Option.map_eq_none_iff.1 h) ht
            rw [hc, balance_closing hd]
            omega
        · rw [if_neg hc, Option.map_eq_none_iff] at h
          have := ih h ht
          rw [balance_other ho hc]
          omega

/-! The block that opens at a place. -/

theorem BlockAt.start_lt (h : BlockAt d t s) : s.start < s.stop := by
  have hne := h.2.ne_nil
  by_contra hle
  have hzero : s.stop - s.start = 0 := by omega
  exact hne (by rw [Span.slice, hzero, List.take_zero])

theorem BlockAt.length_slice (h : BlockAt d t s) : (s.slice t).length = s.stop - s.start := by
  have hle := h.1
  rw [Span.slice, List.length_take, List.length_drop]
  omega

theorem getElem?_of_drop {c : Char} {r : Text} (h : t.drop b = c :: r) : t[b]? = some c := by
  have hfirst : (t.drop b)[0]? = t[b]? := List.getElem?_drop
  rw [h] at hfirst
  exact hfirst.symm

theorem drop_of_getElem? {c : Char} (h : t[b]? = some c) : t.drop b = c :: t.drop (b + 1) := by
  obtain ⟨hlt, hc⟩ := List.getElem?_eq_some_iff.1 h
  rw [List.drop_eq_getElem_cons hlt, hc]

theorem slice_of_getElem? {c : Char} (hb : t[b]? = some c) (n : Nat) :
    (⟨b, b + 1 + n⟩ : Span).slice t = c :: (t.drop (b + 1)).take n := by
  have hlength : b + 1 + n - b = n + 1 := by omega
  rw [Span.slice, drop_of_getElem? hb]
  dsimp only
  rw [hlength, List.take_succ_cons]

theorem findBlock?_of_getElem? (hb : t[b]? = some d.opening) :
    findBlock? d t b = (closing? d 0 (t.drop (b + 1))).map fun n => ⟨b, b + 1 + n⟩ := by
  have hdrop := drop_of_getElem? hb
  simp [findBlock?, hdrop]

theorem start_of_findBlock? (hb : t[b]? = some d.opening) (h : findBlock? d t b = some s) :
    s.start = b := by
  rw [findBlock?_of_getElem? hb] at h
  obtain ⟨n, -, hs⟩ := Option.map_eq_some_iff.1 h
  rw [← hs]

theorem blockAt_of_findBlock? (hd : d.Distinct) (h : findBlock? d t b = some s) : BlockAt d t s :=
  ⟨stop_le_of_findBlock? h, isBlock_of_findBlock? hd h⟩

/-- The search from a place finds the block that opens there. -/
theorem findBlock?_eq_some_iff_blockAt (hd : d.Distinct) :
    findBlock? d t b = some ⟨b, e⟩ ↔ BlockAt d t ⟨b, e⟩ := by
  constructor
  · exact blockAt_of_findBlock? hd
  · intro h
    have hlength := h.length_slice
    have hlt := h.start_lt
    obtain ⟨-, inner, hslice, hinner⟩ := h
    have hcut : t.drop b = d.opening :: (inner ++ d.closing :: (t.drop b).drop (e - b)) := by
      have hsplit := List.take_append_drop (e - b) (t.drop b)
      change (t.drop b).take (e - b) = _ at hslice
      rw [hslice] at hsplit
      simpa using hsplit.symm
    have hclosing := closing?_of_depthAfter? hd ((nested_iff hd).1 hinner) ((t.drop b).drop (e - b))
    have hstop : b + 1 + (inner.length + 1) = e := by
      rw [hslice] at hlength
      simp only [List.length_cons, List.length_append, List.length_nil] at hlength
      omega
    rw [findBlock?_of_opening hcut hclosing, hstop]

theorem BlockAt.getElem? (hd : d.Distinct) (h : BlockAt d t s) : t[s.start]? = some d.opening := by
  have hfind : findBlock? d t s.start = some s := (findBlock?_eq_some_iff_blockAt hd).2 h
  obtain ⟨-, r, n, hr, -⟩ := findBlock?_eq_some hfind
  exact getElem?_of_drop hr

theorem BlockAt.stop_eq (hd : d.Distinct) {e' : Nat} (h : BlockAt d t ⟨b, e⟩)
    (h' : BlockAt d t ⟨b, e'⟩) : e = e' := by
  have hfind := (findBlock?_eq_some_iff_blockAt hd).2 h
  have hfind' := (findBlock?_eq_some_iff_blockAt hd).2 h'
  rw [hfind] at hfind'
  exact congrArg Span.stop (Option.some.inj hfind')

/-- The block that opens at a place ends with the first stretch that is level. -/
theorem BlockAt.isLeast_levelEnds (hd : d.Distinct) (h : BlockAt d t ⟨b, e⟩) :
    IsLeast (levelEnds d t b) e := by
  have hlt := h.start_lt
  have hstop := h.1
  refine ⟨⟨hlt, balance_eq_zero_iff.1 (h.2.balance_eq_zero hd)⟩, ?_⟩
  intro q hq
  obtain ⟨hbq, hcount⟩ := hq
  by_contra hqe
  -- an earlier end would leave a proper beginning of the block level
  have hprefix : (⟨b, q⟩ : Span).slice t <+: (⟨b, e⟩ : Span).slice t :=
    List.take_prefix_take_left (by dsimp only; omega)
  have hlength : ((⟨b, q⟩ : Span).slice t).length = q - b := by
    rw [Span.slice, List.length_take, List.length_drop]
    dsimp only at hstop ⊢
    omega
  have hne : (⟨b, q⟩ : Span).slice t ≠ [] := by
    apply List.ne_nil_of_length_pos
    omega
  have hproper : (⟨b, q⟩ : Span).slice t ≠ (⟨b, e⟩ : Span).slice t := by
    intro heq
    have hsame := congrArg List.length heq
    rw [hlength, h.length_slice] at hsame
    dsimp only at hsame
    omega
  have hpos := h.2.balance_pos hd hprefix hne hproper
  rw [balance_eq_zero_iff.2 hcount] at hpos
  exact absurd hpos (lt_irrefl 0)

/-- Where a delimiter opens, the block is told by the first stretch that is level. -/
theorem blockAt_iff_isLeast (hd : d.Distinct) (hb : t[b]? = some d.opening) :
    BlockAt d t ⟨b, e⟩ ↔ IsLeast (levelEnds d t b) e := by
  constructor
  · intro h
    exact h.isLeast_levelEnds hd
  · intro h
    have hdrop := drop_of_getElem? hb
    cases hclosing : closing? d 0 (t.drop (b + 1)) with
    | none =>
      -- a delimiter that never closes leaves no stretch level
      obtain ⟨hbe, hcount⟩ := h.1
      obtain ⟨n, hn⟩ := Nat.exists_eq_add_of_le (show b + 1 ≤ e from hbe)
      have hzero := balance_eq_zero_iff.2 hcount
      have hnonneg := balance_nonneg_of_closing?_eq_none hd hclosing
        (List.take_prefix n (t.drop (b + 1)))
      rw [hn, slice_of_getElem? hb, balance_cons, balance_opening hd] at hzero
      omega
    | some n =>
      have hblock := blockAt_of_findBlock? hd (findBlock?_of_opening hdrop hclosing)
      have hstop : b + 1 + n = e := (hblock.isLeast_levelEnds hd).unique h
      rwa [hstop] at hblock

/-! The place where the first block opens. -/

/-- No delimiter opens before the first that does. -/
theorem drop_of_isLeast (h : IsLeast (openings d t start) b) :
    ∃ skipped, t.drop start.toNat = skipped ++ d.opening :: t.drop (b + 1) ∧ d.opening ∉ skipped ∧
      b = start.toNat + skipped.length := by
  obtain ⟨⟨hle, hb⟩, hleast⟩ := h
  have hlt : b < t.length := (List.getElem?_eq_some_iff.1 hb).1
  refine ⟨(t.drop start.toNat).take (b - start.toNat), ?_, ?_, ?_⟩
  · have hplace : start.toNat + (b - start.toNat) = b := by omega
    rw [← drop_of_getElem? hb, ← hplace, ← List.drop_drop, hplace, List.take_append_drop]
  · intro hmem
    obtain ⟨k, hk⟩ := List.mem_iff_getElem?.1 hmem
    rw [List.getElem?_take, List.getElem?_drop] at hk
    have hkb : k < b - start.toNat := by
      by_contra hout
      rw [if_neg hout] at hk
      cases hk
    rw [if_pos hkb] at hk
    have : b ≤ start.toNat + k := hleast ⟨by omega, hk⟩
    omega
  · rw [List.length_take, List.length_drop]
    omega

/-- The search goes on from the place where the first delimiter opens. -/
theorem findBlock?_of_isLeast (h : IsLeast (openings d t start) b) :
    findBlock? d t start.toNat = findBlock? d t b := by
  obtain ⟨skipped, hdrop, hskip, hplace⟩ := drop_of_isLeast h
  have hpass : ∀ a ∈ skipped, (a != d.opening) = true := fun a ha =>
    bne_iff_ne.2 fun heq => hskip (heq ▸ ha)
  rw [findBlock?_of_getElem? h.1.2, findBlock?, hdrop]
  rw [List.takeWhile_append_of_pos hpass, List.dropWhile_append_of_pos hpass]
  simp [hplace]

theorem isLeast_of_findBlock? (h : findBlock? d t start.toNat = some s) :
    IsLeast (openings d t start) s.start := by
  obtain ⟨hle, r, n, hr, -⟩ := findBlock?_eq_some h
  have hopen : s.start ∈ openings d t start := ⟨by omega, getElem?_of_drop hr⟩
  have hb := isLeast_csInf (Set.nonempty_of_mem hopen)
  rw [findBlock?_of_isLeast hb] at h
  rwa [start_of_findBlock? hb.1.2 h]

theorem findBlock?_eq_some_iff (hd : d.Distinct) : findBlock? d t start.toNat = some ⟨b, e⟩ ↔
    IsLeast (openings d t start) b ∧ IsLeast (levelEnds d t b) e := by
  constructor
  · intro h
    have hfirst : IsLeast (openings d t start) b := isLeast_of_findBlock? h
    rw [findBlock?_of_isLeast hfirst, findBlock?_eq_some_iff_blockAt hd] at h
    exact ⟨hfirst, h.isLeast_levelEnds hd⟩
  · intro h
    obtain ⟨hfirst, hlevel⟩ := h
    rw [findBlock?_of_isLeast hfirst, findBlock?_eq_some_iff_blockAt hd]
    exact (blockAt_iff_isLeast hd hfirst.1.2).2 hlevel

theorem findBlock?_eq_none_iff (hd : d.Distinct) : findBlock? d t start.toNat = none ↔
    openings d t start = ∅ ∨ ∃ b, IsLeast (openings d t start) b ∧ levelEnds d t b = ∅ := by
  constructor
  · intro h
    rcases (openings d t start).eq_empty_or_nonempty with hnone | hsome
    · exact .inl hnone
    · have hb := isLeast_csInf hsome
      refine .inr ⟨_, hb, Set.eq_empty_iff_forall_notMem.2 ?_⟩
      intro q hq
      have hlevel := isLeast_csInf (Set.nonempty_of_mem hq)
      have hfind := (findBlock?_eq_some_iff hd).2 ⟨hb, hlevel⟩
      rw [h] at hfind
      cases hfind
  · intro h
    cases hfind : findBlock? d t start.toNat with
    | none => rfl
    | some s =>
      have hleast := (findBlock?_eq_some_iff (b := s.start) (e := s.stop) hd).1 hfind
      obtain ⟨hfirst, hlevel⟩ := hleast
      rcases h with hnone | ⟨b, hb, hnone⟩
      · have := hfirst.1
        rw [hnone] at this
        cases this
      · have := hlevel.1
        rw [hfirst.unique hb, hnone] at this
        cases this

/-! Argument lists. -/

theorem closeOfCall?_eq_some_iff {opened close : Nat} :
    closeOfCall? t opened = some close ↔ BlockAt .parentheses t ⟨opened, close⟩ := by
  rw [← findBlock?_eq_some_iff_blockAt distinct_parentheses]
  constructor
  · exact closeOfCall?_eq_some
  · intro h
    obtain ⟨-, r, n, hr, hn, hstop⟩ := findBlock?_eq_some h
    change t.drop opened = '(' :: r at hr
    change close = opened + 1 + n at hstop
    rw [closeOfCall?, hr, hstop]
    simp [hn]

theorem closeOfCall?_eq_none_iff {opened : Nat} :
    closeOfCall? t opened = none ↔ ∀ close, ¬BlockAt .parentheses t ⟨opened, close⟩ := by
  simp only [Option.eq_none_iff_forall_ne_some, ne_eq, closeOfCall?_eq_some_iff]

/-- The block found opens at the first opening delimiter and ends where as many have closed for the first time; it is
open everywhere before, and there is none exactly if no delimiter opens or the first never closes. So the end of an
argument list is that of the only block that opens with its parenthesis. -/
theorem findBlock?_extent (hd : d.Distinct) (t : Text) (start : Int) :
    (∀ b e, findBlock? d t start.toNat = some ⟨b, e⟩ ↔
      IsLeast (openings d t start) b ∧ IsLeast (levelEnds d t b) e) ∧
    (∀ s, findBlock? d t start.toNat = some s →
      (∀ front, front <+: s.slice t → front ≠ [] → front ≠ s.slice t →
        front.count d.closing < front.count d.opening) ∧
      (s.slice t).getLast? = some d.closing) ∧
    (findBlock? d t start.toNat = none ↔
      openings d t start = ∅ ∨ ∃ b, IsLeast (openings d t start) b ∧ levelEnds d t b = ∅) ∧
    ∀ opened,
      (∀ close, closeOfCall? t opened = some close ↔ BlockAt .parentheses t ⟨opened, close⟩) ∧
      (∀ close close', BlockAt .parentheses t ⟨opened, close⟩ →
        BlockAt .parentheses t ⟨opened, close'⟩ → close = close') ∧
      (closeOfCall? t opened = none ↔ ∀ close, ¬BlockAt .parentheses t ⟨opened, close⟩) := by
  have hinside : ∀ s, findBlock? d t start.toNat = some s →
      (∀ front, front <+: s.slice t → front ≠ [] → front ≠ s.slice t →
        front.count d.closing < front.count d.opening) ∧
      (s.slice t).getLast? = some d.closing := by
    intro s hs
    have hblock := isBlock_of_findBlock? hd hs
    constructor
    · intro front hf hne hproper
      exact balance_pos_iff.1 (hblock.balance_pos hd hf hne hproper)
    · exact hblock.getLast?_eq
  refine ⟨fun b e => findBlock?_eq_some_iff hd, hinside, findBlock?_eq_none_iff hd, ?_⟩
  intro opened
  refine ⟨fun close => closeOfCall?_eq_some_iff, ?_, closeOfCall?_eq_none_iff⟩
  intro close close' h h'
  exact h.stop_eq distinct_parentheses h'

theorem findBlock?_extent_nested :
    let t := "f(a) \x7d \x7b if (x) \x7b y(); \x7d \x7d \x7bz\x7d".toList
    Delimiters.braces.Distinct ∧ findBlock? .braces t (-4 : Int).toNat = some ⟨7, 26⟩ ∧
      IsLeast (openings .braces t (-4)) 7 ∧ IsLeast (levelEnds .braces t 7) 26 ∧
      BlockAt .parentheses t ⟨12, 15⟩ := by
  intro t
  have hd : Delimiters.braces.Distinct := by decide
  obtain ⟨hfound, -, -, hcall⟩ := findBlock?_extent hd t (-4)
  have hfind : findBlock? .braces t (-4 : Int).toNat = some ⟨7, 26⟩ := by decide
  obtain ⟨hopens, hlevel⟩ := (hfound 7 26).1 hfind
  exact ⟨hd, hfind, hopens, hlevel, ((hcall 12).1 15).1 (by decide)⟩

end BackendMigration.Source

/-! The first block of a size. The search goes on behind the brace of each block that it rejects, so it sees the blocks
inside of that block and those behind it. -/
namespace BackendMigration.Source

/-- A stretch of a text is a block in braces of at least `size` characters. -/
def SizedAt (size : Int) (t : Text) (s : Span) : Prop :=
  BlockAt .braces t s ∧ size ≤ (s.stop : Int) - s.start

/-- A search that begins at a position, takes some rounds and ends with a text. A round looks at the brace that opens
next: the search ends if there is none or its block is large enough, else it goes on right behind the brace. -/
inductive Search (size : Int) (t : Text) : Nat → Nat → Text → Prop
  | ended {p : Nat} (hnone : openings .braces t p = ∅) : Search size t p 1 []
  | found {p b : Nat} {s : Span} (hb : IsLeast (openings .braces t p) b)
      (hs : findBlock? .braces t b = some s) (hsize : size ≤ (s.stop : Int) - s.start) :
      Search size t p 1 (s.slice t)
  | rejected {p b n : Nat} {block : Text} (hb : IsLeast (openings .braces t p) b)
      (hs : ∀ s, findBlock? .braces t b = some s → (s.stop : Int) - s.start < size)
      (hrest : Search size t (b + 1) n block) : Search size t p (n + 1) block

variable {size : Int} {t : Text} {p b n : Nat} {block : Text}

/-! The search ends. -/

theorem openings_nonempty_iff : (openings .braces t p).Nonempty ↔ '\x7b' ∈ t.drop p := by
  constructor
  · intro h
    obtain ⟨b, hp, hb⟩ := h
    have hplace : p + (b - p) = b := by omega
    rw [List.mem_iff_getElem?]
    exact ⟨b - p, by rw [List.getElem?_drop, hplace]; exact hb⟩
  · intro h
    obtain ⟨k, hk⟩ := List.mem_iff_getElem?.1 h
    rw [List.getElem?_drop] at hk
    exact ⟨p + k, by omega, hk⟩

theorem firstBlockOfSize_append (n : Nat) {skipped : Text} (h : '\x7b' ∉ skipped) (t : Text) :
    firstBlockOfSize n (skipped ++ t) = firstBlockOfSize n t := by
  induction skipped with
  | nil => rfl
  | cons c r ih =>
    obtain ⟨hc, hr⟩ := not_or.1 (mt List.mem_cons.2 h)
    have hne : c ≠ '\x7b' := Ne.symm hc
    rw [List.cons_append, firstBlockOfSize]
    simp only [if_neg hne]
    exact ih hr

theorem firstBlockOfSize_of_not_mem (n : Nat) (h : '\x7b' ∉ t) : firstBlockOfSize n t = [] := by
  have hend := firstBlockOfSize_append n h []
  rwa [List.append_nil] at hend

theorem exists_skipped (hb : IsLeast (openings .braces t p) b) :
    ∃ skipped, t.drop p = skipped ++ '\x7b' :: t.drop (b + 1) ∧ '\x7b' ∉ skipped := by
  obtain ⟨skipped, hdrop, hskip, -⟩ := drop_of_isLeast hb
  exact ⟨skipped, hdrop, hskip⟩

/-- What one round does: the block of the brace that opens next is large enough and the result, or the result is that from
behind the brace. -/
theorem firstBlockOfSize_round (size : Int) (hb : IsLeast (openings .braces t p) b) :
    (∃ s, findBlock? .braces t b = some s ∧ size ≤ (s.stop : Int) - s.start ∧
      firstBlockOfSize size.toNat (t.drop p) = s.slice t) ∨
    (∀ s, findBlock? .braces t b = some s → (s.stop : Int) - s.start < size) ∧
      firstBlockOfSize size.toNat (t.drop p) = firstBlockOfSize size.toNat (t.drop (b + 1)) := by
  obtain ⟨skipped, hdrop, hskip⟩ := exists_skipped hb
  have hfind := findBlock?_of_getElem? hb.1.2
  rw [hdrop, firstBlockOfSize_append _ hskip, firstBlockOfSize, if_pos rfl, hfind]
  cases hclosing : closing? .braces 0 (t.drop (b + 1)) with
  | none =>
    refine .inr ⟨?_, rfl⟩
    intro s hs
    cases hs
  | some n =>
    by_cases hsize : size.toNat ≤ n + 1
    · refine .inl ⟨⟨b, b + 1 + n⟩, rfl, by dsimp only; omega, ?_⟩
      simp only [if_pos hsize]
      rw [slice_of_getElem? hb.1.2, List.take_succ_cons]
      rfl
    · refine .inr ⟨?_, by simp only [if_neg hsize]⟩
      intro s hs
      cases hs
      dsimp only
      omega

theorem count_drop_of_isLeast (hb : IsLeast (openings .braces t p) b) :
    (t.drop p).count '\x7b' = (t.drop (b + 1)).count '\x7b' + 1 := by
  obtain ⟨skipped, hdrop, hskip⟩ := exists_skipped hb
  rw [hdrop, List.count_append, List.count_eq_zero.2 hskip, List.count_cons_self]
  omega

/-- A search comes to the block that is computed from its position; it looks at each brace from there on once at most. -/
theorem exists_search (size : Int) (t : Text) (p : Nat) :
    ∃ n ≤ (t.drop p).count '\x7b' + 1, Search size t p n (firstBlockOfSize size.toNat (t.drop p)) := by
  -- on the braces that are left, of which each round passes one
  induction hcount : (t.drop p).count '\x7b' generalizing p with
  | zero =>
    have hmissing : '\x7b' ∉ t.drop p := List.count_eq_zero.1 hcount
    rw [firstBlockOfSize_of_not_mem _ hmissing]
    have hnone : openings .braces t p = ∅ :=
      Set.not_nonempty_iff_eq_empty.1 (mt openings_nonempty_iff.1 hmissing)
    exact ⟨1, by omega, .ended hnone⟩
  | succ k ih =>
    have hmem : '\x7b' ∈ t.drop p := List.count_pos_iff.1 (by omega)
    obtain ⟨b, hb⟩ : ∃ b, IsLeast (openings .braces t p) b :=
      ⟨_, isLeast_csInf (openings_nonempty_iff.2 hmem)⟩
    rcases firstBlockOfSize_round size hb with ⟨s, hs, hsize, hblock⟩ | ⟨hs, hrest⟩
    · rw [hblock]
      exact ⟨1, by omega, .found hb hs hsize⟩
    · have hfewer := count_drop_of_isLeast hb
      obtain ⟨n, hn, hsearch⟩ := ih (b + 1) (by omega)
      rw [hrest]
      exact ⟨n + 1, by omega, .rejected hb hs hsearch⟩

/-! The search finds the first block. -/

/-- Where the blocks of a size open, at or after a position. -/
def sizedOpenings (size : Int) (t : Text) (p : Nat) : Set Nat := {b | p ≤ b ∧ ∃ e, SizedAt size t ⟨b, e⟩}

theorem sizedOpenings_subset : sizedOpenings size t p ⊆ openings .braces t p := by
  intro b hb
  obtain ⟨hp, e, hblock, -⟩ := hb
  exact ⟨by omega, hblock.getElem? distinct_braces⟩

/-- A search passes no block of the size: it ends with the one that opens first at or after its position, and without one
only if there is none. -/
theorem Search.first (h : Search size t p n block) :
    (block = [] ∧ sizedOpenings size t p = ∅) ∨
      ∃ s, IsLeast (sizedOpenings size t p) s.start ∧ SizedAt size t s ∧ block = s.slice t := by
  induction h with
  | ended hnone => exact .inl ⟨rfl, Set.subset_eq_empty sizedOpenings_subset hnone⟩
  | @found p b s hb hs hsize =>
    have hstart := start_of_findBlock? hb.1.2 hs
    have hsized : SizedAt size t s := ⟨blockAt_of_findBlock? distinct_braces hs, hsize⟩
    have hp := hb.1.1
    refine .inr ⟨s, ⟨⟨by omega, s.stop, hsized⟩, ?_⟩, hsized, rfl⟩
    intro b' hb'
    rw [hstart]
    exact hb.2 (sizedOpenings_subset hb')
  | @rejected p b n block hb hs hrest ih =>
    -- the brace passed opens no block of the size, so those behind it are all that is left
    have hp := hb.1.1
    have hsame : sizedOpenings size t p = sizedOpenings size t (b + 1) := by
      apply Set.Subset.antisymm
      · intro b' hb'
        have hle : b ≤ b' := hb.2 (sizedOpenings_subset hb')
        obtain ⟨-, e, hblock, hsize⟩ := hb'
        have hne : b ≠ b' := by
          intro heq
          subst heq
          have := hs _ ((findBlock?_eq_some_iff_blockAt distinct_braces).2 hblock)
          omega
        exact ⟨by omega, e, hblock, hsize⟩
      · intro b' hb'
        exact ⟨by have := hb'.1; omega, hb'.2⟩
    rw [hsame]
    exact ih

/-- The search for a block of a size ends, after as many rounds as there are opening braces and one at most. It comes to
the block of the size that opens first, whatever opens before it and does not close or is too small, and to none exactly if
no brace opens one. -/
theorem firstBlockOfSize_first (size : Int) (t : Text) :
    (∃ n ≤ t.count '\x7b' + 1, Search size t 0 n (firstBlockOfSize size.toNat t)) ∧
    (∀ s, SizedAt size t s → IsLeast {b | ∃ e, SizedAt size t ⟨b, e⟩} s.start →
      firstBlockOfSize size.toNat t = s.slice t) ∧
    (firstBlockOfSize size.toNat t = [] ↔ ∀ s, ¬SizedAt size t s) ∧
    ∀ s, SizedAt size t s → ∃ s', s'.start ≤ s.start ∧ SizedAt size t s' ∧
      IsLeast {b | ∃ e, SizedAt size t ⟨b, e⟩} s'.start ∧ firstBlockOfSize size.toNat t = s'.slice t := by
  obtain ⟨n, hn, hsearch⟩ := exists_search size t 0
  rw [List.drop_zero] at hn hsearch
  have hall : sizedOpenings size t 0 = {b | ∃ e, SizedAt size t ⟨b, e⟩} := by simp [sizedOpenings]
  have hfirst := hsearch.first
  rw [hall] at hfirst
  have hnone : firstBlockOfSize size.toNat t = [] ↔ ∀ s, ¬SizedAt size t s := by
    constructor
    · intro hempty s hs
      rcases hfirst with ⟨-, hmissing⟩ | ⟨s', -, hs', hblock⟩
      · have hmem : s.start ∈ {b | ∃ e, SizedAt size t ⟨b, e⟩} := ⟨s.stop, hs⟩
        rw [hmissing] at hmem
        exact hmem
      · rw [hempty] at hblock
        exact hs'.1.2.ne_nil hblock.symm
    · intro hmissing
      rcases hfirst with ⟨hempty, -⟩ | ⟨s', -, hs', -⟩
      · exact hempty
      · exact absurd hs' (hmissing s')
  have hsome : ∀ s, SizedAt size t s → ∃ s', s'.start ≤ s.start ∧ SizedAt size t s' ∧
      IsLeast {b | ∃ e, SizedAt size t ⟨b, e⟩} s'.start ∧ firstBlockOfSize size.toNat t = s'.slice t := by
    intro s hs
    rcases hfirst with ⟨hempty, -⟩ | ⟨s', hleast, hs', hblock⟩
    · exact absurd hs (hnone.1 hempty s)
    · exact ⟨s', hleast.2 ⟨s.stop, hs⟩, hs', hleast, hblock⟩
  refine ⟨⟨n, hn, hsearch⟩, ?_, hnone, hsome⟩
  intro s hs hleast
  obtain ⟨s', -, hs', hleast', hblock⟩ := hsome s hs
  have hstart : s'.start = s.start := hleast'.unique hleast
  have hstop : s'.stop = s.stop := by
    have hat : BlockAt .braces t ⟨s.start, s'.stop⟩ := hstart ▸ hs'.1
    exact hat.stop_eq distinct_braces hs.1
  rw [hblock, Span.slice, Span.slice, hstart, hstop]

theorem firstBlockOfSize_first_inside :
    let t := "\x7ba\x7d \x7b \x7bbb\x7d \x7b this block is long enough \x7d".toList
    SizedAt 20 t ⟨11, 40⟩ ∧ ∃ s', s'.start ≤ 11 ∧ SizedAt 20 t s' ∧
      firstBlockOfSize (20 : Int).toNat t = s'.slice t := by
  intro t
  have hfind : findBlock? .braces t 11 = some ⟨11, 40⟩ := by decide
  have hsized : SizedAt 20 t ⟨11, 40⟩ := ⟨blockAt_of_findBlock? distinct_braces hfind, by decide⟩
  obtain ⟨s', hle, hs', -, hblock⟩ := (firstBlockOfSize_first 20 t).2.2.2 _ hsized
  exact ⟨hsized, s', hle, hs', hblock⟩

end BackendMigration.Source
