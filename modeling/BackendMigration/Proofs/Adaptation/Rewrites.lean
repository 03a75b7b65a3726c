import BackendMigration.Proofs.Adaptation.Whole

/-! An action that converts calls cuts a text into gaps, which it copies, and whole calls, each of which it
replaces by what it makes of that call alone. -/
namespace BackendMigration.Adaptation

open Source Text Pattern

/-- A stretch of text between two others in which an action finds nothing to convert. -/
structure Gap (action : Action) (front gap back : Text) : Prop where
  /-- No call that begins in it is converted. -/
  declined : ∀ {g g' call rest new}, gap = g ++ g' → g' ≠ [] → g' ++ back = call ++ rest →
    action.CallAt (front ++ g) call rest → ¬action.Converts call new
  /-- It has the names of the calls that begin in it, up to the opening parenthesis. -/
  name : ∀ {p g g' m}, action.callPattern? = some p → gap = g ++ g' → g' ≠ [] →
    p.matchAt? (.between (front ++ g) (g' ++ back)) = some m → m.text <+: g'

/-- From a place on a text becomes another one: gaps stay, and the calls between them are converted. -/
inductive Rewrites (action : Action) : (front t t' : Text) → Prop
  | last {front gap : Text} : Gap action front gap [] → Rewrites action front gap gap
  | call {front gap call new rest rest' : Text} : Gap action front gap (call ++ rest) →
      action.CallAt (front ++ gap) call rest → action.Converts call new →
      Rewrites action (front ++ gap ++ call) rest rest' →
      Rewrites action front (gap ++ (call ++ rest)) (gap ++ (new ++ rest'))

/-- The text that segments stand for before the edits. -/
def before (segs : List Segment) : Text := segs.flatMap Segment.before

/-- The text that segments stand for after the edits. -/
def after (segs : List Segment) : Text := segs.flatMap Segment.after

/-- From a place on segments are gaps, whose characters are kept, and calls that are replaced. -/
inductive Cut (action : Action) : (front : Text) → List Segment → Prop
  | last {front gap : Text} : Gap action front gap [] → Cut action front (gap.map .kept)
  | call {front gap call new : Text} {segs : List Segment} : Gap action front gap (call ++ before segs) →
      action.CallAt (front ++ gap) call (before segs) → action.Converts call new →
      Cut action (front ++ gap ++ call) segs →
      Cut action front (gap.map .kept ++ .replaced call new :: segs)

section Segments

variable (segs segs' : List Segment) (t : Text)

@[simp] theorem before_nil : before [] = [] := rfl

@[simp] theorem after_nil : after [] = [] := rfl

@[simp] theorem before_cons (s : Segment) : before (s :: segs) = s.before ++ before segs := rfl

@[simp] theorem after_cons (s : Segment) : after (s :: segs) = s.after ++ after segs := rfl

@[simp] theorem before_append : before (segs ++ segs') = before segs ++ before segs' :=
  List.flatMap_append

@[simp] theorem after_append : after (segs ++ segs') = after segs ++ after segs' := List.flatMap_append

@[simp] theorem before_kept : before (t.map .kept) = t := by
  induction t with
  | nil => rfl
  | cons c r ih => exact congrArg (c :: ·) ih

@[simp] theorem after_kept : after (t.map .kept) = t := by
  induction t with
  | nil => rfl
  | cons c r ih => exact congrArg (c :: ·) ih

end Segments

variable {action : Action} {p : Pattern} {front gap t s s' : Text} {segs : List Segment}

theorem Cut.rewrites (h : Cut action front segs) : Rewrites action front (before segs) (after segs) := by
  induction h with
  | last hgap => simpa using Rewrites.last hgap
  | call hgap hcall hnew _ ih => simpa [Segment.before, Segment.after] using Rewrites.call hgap hcall hnew ih

/-- A text can be cut in one way only. -/
theorem Rewrites.unique (h : action.callPattern? = some p) (hs : Rewrites action front t s)
    (hs' : Rewrites action front t s') : s = s' := by
  have hcalls := Action.editsCalls h
  induction hs generalizing s' with
  | @last front gap hgap =>
    cases hs' with
    | last => rfl
    | @call _ g call new rest rest' _ hcall hnew =>
      exact absurd hnew (hgap.declined rfl (List.append_ne_nil_of_left_ne_nil (hcalls.ne_nil hcall) rest)
        (List.append_nil _) hcall)
  | @call front gap call new rest rest' hgap hcall hnew _ ih =>
    generalize ht : gap ++ (call ++ rest) = t at hs'
    cases hs' with
    | last hgap' =>
      exact absurd hnew (hgap'.declined ht.symm
        (List.append_ne_nil_of_left_ne_nil (hcalls.ne_nil hcall) rest) (List.append_nil _) hcall)
    | @call _ gap' call' new' rest₁ rest₁' hgap' hcall' hnew' hrest' =>
      -- A gap cannot go on across a place where a call is converted.
      have heq : gap = gap' ∧ call ++ rest = call' ++ rest₁ := by
        rcases List.append_eq_append_iff.1 ht with ⟨w, hw, hw'⟩ | ⟨w, hw, hw'⟩
        · rcases eq_or_ne w [] with rfl | hne
          · exact ⟨by rw [hw, List.append_nil], hw'⟩
          · exact absurd hnew (hgap'.declined hw hne hw'.symm hcall)
        · rcases eq_or_ne w [] with rfl | hne
          · exact ⟨by rw [hw, List.append_nil], hw'.symm⟩
          · exact absurd hnew' (hgap.declined hw hne hw'.symm hcall')
      obtain ⟨rfl, heq⟩ := heq
      obtain rfl := hcalls.unique hcall hcall' heq
      obtain rfl := List.append_cancel_left heq
      rw [hnew.unique hnew', ih hrest']

/-! The scan of a text. -/

/-- Nothing is converted at a place, and a name that begins there ends within the text `g` behind it or
the `copied` characters after that. -/
structure Passed (action : Action) (copied : Nat) (front g back : Text) : Prop where
  declined : ∀ n new, action.edit (.between front (g ++ back)) ≠ some (.replace n new)
  name : ∀ {p m}, action.callPattern? = some p → p.matchAt? (.between front (g ++ back)) = some m →
    m.text.length ≤ g.length + copied

/-- All places of a run of text behind a base have been passed. -/
def Run (action : Action) (copied : Nat) (base run back : Text) : Prop :=
  ∀ g g', run = g ++ g' → g' ≠ [] → Passed action copied (base ++ g) g' back

/-- The characters to copy yet are the last ones of a name in the run. -/
def Copying (p : Pattern) (copied : Nat) (base run back : Text) : Prop :=
  copied ≠ 0 → ∃ g g' m, run = g ++ g' ∧ g' ≠ [] ∧
    p.matchAt? (.between (base ++ g) (g' ++ back)) = some m ∧ m.text.length = g'.length + copied

variable {base run back : Text} {c : Char} {copied : Nat}

theorem run_nil (base back : Text) : Run action copied base [] back := by
  intro g g' h hne
  exact absurd (List.append_eq_nil_iff.1 h.symm).2 hne

theorem exists_of_concat_eq_append {g g' : Text} (h : run ++ [c] = g ++ g') (hne : g' ≠ []) :
    (g = run ∧ g' = [c]) ∨ ∃ w, w ≠ [] ∧ g' = w ++ [c] ∧ run = g ++ w := by
  rcases List.eq_nil_or_concat g' with rfl | ⟨w, a, rfl⟩
  · exact absurd rfl hne
  · rw [List.concat_eq_append, ← List.append_assoc] at h
    obtain ⟨hrun, ha⟩ := List.append_inj' h rfl
    rw [List.concat_eq_append, ← ha]
    rcases eq_or_ne w [] with rfl | hw
    · exact .inl ⟨by rw [hrun, List.append_nil], rfl⟩
    · exact .inr ⟨w, hw, rfl, hrun⟩

/-- A run goes on over a place that is passed. -/
theorem Run.concat {copied' : Nat} (h : Run action copied base run (c :: back))
    (hcopied : copied ≤ copied' + 1) (hc : Passed action copied' (base ++ run) [c] back) :
    Run action copied' base (run ++ [c]) back := by
  intro g g' hg hne
  rcases exists_of_concat_eq_append hg hne with ⟨rfl, rfl⟩ | ⟨w, hw, rfl, hrun⟩
  · exact hc
  · have hpassed := h g w hrun hw
    refine ⟨fun n new => ?_, fun hp hm => ?_⟩
    · rw [List.append_assoc]
      exact hpassed.declined n new
    · rw [List.append_assoc] at hm
      have := hpassed.name hp hm
      rw [List.length_append, List.length_singleton]
      omega

theorem Copying.concat (h : Copying p (copied + 1) base run (c :: back)) :
    Copying p copied base (run ++ [c]) back := by
  intro _
  obtain ⟨g, g', m, hrun, hne, hm, hl⟩ := h (Nat.succ_ne_zero _)
  refine ⟨g, g' ++ [c], m, by rw [hrun, List.append_assoc], by simp, ?_, ?_⟩
  · rwa [List.append_assoc]
  · rw [hl, List.length_append, List.length_singleton]
    omega

/-- At the end of a text no name is left to copy. -/
theorem Copying.eq_zero (h : Copying p copied base run []) : copied = 0 := by
  by_contra hne
  obtain ⟨g, g', m, -, -, hm, hl⟩ := h hne
  obtain ⟨c', -, hr, -⟩ := rest_eq_of_text hm rfl
  have hr : g' ++ [] = m.text ++ c'.rest := hr
  have := congrArg List.length hr
  rw [List.append_nil, List.length_append] at this
  omega

theorem copying_zero (p : Pattern) (base run back : Text) : Copying p 0 base run back := by
  intro h
  exact absurd rfl h

/-- Within a name that has been passed nothing is converted. -/
theorem Copying.passed (hp : action.callPattern? = some p) (hrun : Run action (copied + 1) base run (c :: back))
    (h : Copying p (copied + 1) base run (c :: back)) : Passed action copied (base ++ run) [c] back := by
  have hcalls := Action.editsCalls hp
  obtain ⟨g, g', m, hg, hne, hm, hl⟩ := h (Nat.succ_ne_zero _)
  have hplace : base ++ run = base ++ g ++ g' := by rw [hg, List.append_assoc]
  have hlt : g'.length < m.text.length := by omega
  refine ⟨fun n new hedit => ?_, fun hp' hm' => ?_⟩
  · rw [hplace] at hedit
    exact (hrun g g' hg hne).declined _ _ (hcalls.within hm hlt hedit)
  · obtain rfl := Option.some.inj (hp.symm.trans hp')
    rw [hplace] at hm'
    have htext := text_within hm hlt hm' (hcalls.opens hm) (hcalls.opens hm')
    rw [htext, List.length_append] at hl
    rw [List.length_singleton]
    omega

/-- A run that ends with no name to copy is a gap. -/
theorem Run.isGap (hp : action.callPattern? = some p) (h : Run action 0 base run back) :
    Gap action base run back := by
  have hcalls := Action.editsCalls hp
  refine ⟨fun {g g' call rest new} hrun hne heq hcall hnew => ?_, fun hp' hrun hne hm => ?_⟩
  · refine (h g g' hrun hne).declined call.length new ?_
    exact hcalls.replace_iff.2 ⟨call, rest, heq, rfl, hcall, hnew⟩
  · have hl := (h _ _ hrun hne).name hp' hm
    obtain ⟨c', -, hr, -⟩ := rest_eq_of_text hm rfl
    exact List.prefix_of_prefix_length_le ⟨c'.rest, hr.symm⟩ (List.prefix_append _ _) hl

/-- Dropped characters are passed over. -/
theorem segmentsFrom_dropped (edit : Cursor → Option Edit) (front call rest : Text) :
    segmentsFrom edit call.length 0 front.getLast? front.length (call ++ rest) =
      segmentsFrom edit 0 0 (front ++ call).getLast? (front ++ call).length rest := by
  induction call generalizing front with
  | nil => simp
  | cons c r ih =>
    have hlast : some c = (front ++ [c]).getLast? := List.getLast?_concat.symm
    have hlength : front.length + 1 = (front ++ [c]).length := by simp
    rw [List.length_cons, List.cons_append, segmentsFrom, hlast, hlength, ih, List.append_assoc]
    rfl

theorem before_segmentsFrom (edit : Cursor → Option Edit) (previous : Option Char) (offset : Nat)
    (t : Text) : before (segmentsFrom edit 0 0 previous offset t) = t :=
  flatMap_before_segmentsFrom edit t 0 0 previous offset

/-- The scan goes on behind a character at which nothing is edited. -/
theorem segmentsFrom_of_none {edit : Cursor → Option Edit} (h : edit (.between front (c :: back)) = none) :
    segmentsFrom edit 0 0 front.getLast? front.length (c :: back) =
      .kept c :: segmentsFrom edit 0 0 (front ++ [c]).getLast? (front ++ [c]).length back := by
  have h : edit ⟨front.getLast?, c :: back, front.length⟩ = none := h
  rw [segmentsFrom, h, List.getLast?_concat, List.length_append, List.length_singleton]

/-- The scan copies the rest of what is kept from a place on. -/
theorem segmentsFrom_of_keep {edit : Cursor → Option Edit} {n : Nat}
    (h : edit (.between front (c :: back)) = some (.keep n)) :
    segmentsFrom edit 0 0 front.getLast? front.length (c :: back) =
      .kept c :: segmentsFrom edit 0 (n - 1) (front ++ [c]).getLast? (front ++ [c]).length back := by
  have h : edit ⟨front.getLast?, c :: back, front.length⟩ = some (.keep n) := h
  rw [segmentsFrom, h, List.getLast?_concat, List.length_append, List.length_singleton]

theorem segmentsFrom_copied (edit : Cursor → Option Edit) (copied : Nat) (front : Text) (c : Char)
    (back : Text) : segmentsFrom edit 0 (copied + 1) front.getLast? front.length (c :: back) =
      .kept c :: segmentsFrom edit 0 copied (front ++ [c]).getLast? (front ++ [c]).length back := by
  rw [segmentsFrom, List.getLast?_concat, List.length_append, List.length_singleton]

/-- The scan goes on behind a stretch that is replaced. -/
theorem segmentsFrom_of_replace {edit : Cursor → Option Edit} {call new : Text} (hne : call ≠ [])
    (h : edit (.between front (call ++ back)) = some (.replace call.length new)) :
    segmentsFrom edit 0 0 front.getLast? front.length (call ++ back) = .replaced call new ::
      segmentsFrom edit 0 0 (front ++ call).getLast? (front ++ call).length back := by
  obtain ⟨c, r, rfl⟩ := List.exists_cons_of_ne_nil hne
  have h : edit ⟨front.getLast?, c :: (r ++ back), front.length⟩ = some (.replace (r.length + 1) new) := h
  have hdropped := segmentsFrom_dropped edit (front ++ [c]) r back
  rw [List.getLast?_concat, List.length_append, List.length_singleton, List.append_assoc] at hdropped
  rw [List.cons_append, segmentsFrom, h]
  simp only [Nat.add_sub_cancel, List.take_succ_cons, List.take_left, hdropped]
  rfl

/-- A name that is kept is passed and copied. -/
theorem passed_of_keep (hp : action.callPattern? = some p) {n : Nat}
    (h : action.edit (.between (base ++ run) (c :: back)) = some (.keep n)) :
    Passed action (n - 1) (base ++ run) [c] back ∧ Copying p (n - 1) base (run ++ [c]) back := by
  obtain ⟨m, hm, rfl⟩ := (Action.editsCalls hp).keep h
  refine ⟨⟨fun n new h' => ?_, fun hp' hm' => ?_⟩, fun hne => ?_⟩
  · rw [List.singleton_append, h] at h'
    cases h'
  · obtain rfl := Option.some.inj (hp.symm.trans hp')
    obtain rfl := Option.some.inj (hm.symm.trans hm')
    rw [List.length_singleton]
    omega
  · refine ⟨run, [c], m, rfl, List.cons_ne_nil c [], hm, ?_⟩
    rw [List.length_singleton]
    omega

theorem passed_of_none (hp : action.callPattern? = some p)
    (h : action.edit (.between front (c :: back)) = none) : Passed action 0 front [c] back := by
  refine ⟨fun n new h' => ?_, fun hp' hm => ?_⟩
  · rw [List.singleton_append, h] at h'
    cases h'
  · obtain rfl := Option.some.inj (hp.symm.trans hp')
    rw [List.singleton_append, (Action.editsCalls hp).none_iff.1 h] at hm
    cases hm

/-- The scan from a place on, behind the run that it has passed since the last call. -/
theorem cut_segmentsFrom (hp : action.callPattern? = some p) (t base run : Text) (copied : Nat)
    (hrun : Run action copied base run t) (hcopying : Copying p copied base run t) :
    Cut action base (run.map .kept ++
      segmentsFrom action.edit 0 copied (base ++ run).getLast? (base ++ run).length t) := by
  have hcalls := Action.editsCalls hp
  -- What follows a call is shorter by the whole call.
  induction hk : t.length using Nat.strongRecOn generalizing t base run copied with
  | _ k ih =>
    subst hk
    cases t with
    | nil =>
      obtain rfl := hcopying.eq_zero
      simpa [segmentsFrom] using Cut.last (hrun.isGap hp)
    | cons c r =>
      have keep (copied : Nat) (hrun : Run action copied base (run ++ [c]) r)
          (hcopying : Copying p copied base (run ++ [c]) r) :
          Cut action base (run.map .kept ++ .kept c :: segmentsFrom action.edit 0 copied
            (base ++ run ++ [c]).getLast? (base ++ run ++ [c]).length r) := by
        have := ih r.length (Nat.lt_succ_self _) r base (run ++ [c]) copied hrun hcopying rfl
        simpa using this
      cases copied with
      | succ copied =>
        rw [segmentsFrom_copied]
        exact keep copied (hrun.concat (Nat.le_refl _) (hcopying.passed hp hrun)) hcopying.concat
      | zero =>
        rcases hedit : action.edit (.between (base ++ run) (c :: r)) with _ | ⟨n, new⟩ | n
        · rw [segmentsFrom_of_none hedit]
          exact keep 0 (hrun.concat (Nat.zero_le _) (passed_of_none hp hedit)) (copying_zero _ _ _ _)
        · obtain ⟨call, rest, ht, rfl, hcall, hnew⟩ := hcalls.replace_iff.1 hedit
          have hne := hcalls.ne_nil hcall
          rw [ht] at hedit hrun ih ⊢
          rw [segmentsFrom_of_replace hne hedit]
          have hshort : rest.length < (call ++ rest).length := by
            rw [List.length_append]
            have := List.length_pos_iff.2 hne
            omega
          have hrest := ih rest.length hshort rest (base ++ run ++ call) [] 0
            (run_nil _ _) (copying_zero _ _ _ _) rfl
          rw [List.append_nil] at hrest
          have hbefore := before_segmentsFrom action.edit (base ++ run ++ call).getLast?
            (base ++ run ++ call).length rest
          exact .call (hbefore.symm ▸ hrun.isGap hp) (hbefore.symm ▸ hcall) hnew hrest
        · obtain ⟨hpassed, hcopying⟩ := passed_of_keep hp hedit
          rw [segmentsFrom_of_keep hedit]
          exact keep _ (hrun.concat (Nat.zero_le _) hpassed) hcopying

/-- The segments of a text are gaps and calls. -/
theorem cut_segments (hp : action.callPattern? = some p) (t : Text) : Cut action [] (segments action.edit t) :=
  cut_segmentsFrom hp t [] [] 0 (run_nil _ _) (copying_zero _ _ _ _)

/-- A rule that converts calls makes of each text the one that gaps and converted calls make up, and of no
text another one. -/
theorem apply_eq_iff_rewrites {rule : Rule} (hp : rule.action.callPattern? = some p) :
    rule.apply t = s ↔ Rewrites rule.action [] t s := by
  have h := (cut_segments hp t).rewrites
  rw [before, flatMap_before_segments] at h
  change Rewrites rule.action [] t (rule.apply t) at h
  constructor
  · rintro rfl
    exact h
  · exact h.unique hp

example : (Rule.all.filter (·.action.callPattern?.isSome)).map (·.name) =
    ["doc", "where", "status_json", "status_send", "json", "send"] := by decide

/-- A call with two arguments is declined, and the call in its arguments is converted. -/
theorem rewrites_within_declined : Action.callPattern? .document = some documentCall ∧
    Rewrites .document [] "a.doc(b.doc(c), d)".toList
      "a.doc(b.select().eq('id', c).single(), d)".toList := by
  have hp : (Rule.mk "doc" .document).action.callPattern? = some documentCall := rfl
  exact ⟨hp, (apply_eq_iff_rewrites hp).1 (by decide +kernel)⟩

/-! Where a stretch of an edited text comes from. -/

variable {s₁ s₂ : List Segment} {u v r inner rest call old new : Text}

/-- A place of an edited text is at a character that is kept or within a replacement. -/
theorem exists_of_after_eq_append (h : after segs = u ++ v) (hv : v ≠ []) :
    (∃ s₁ c s₂, segs = s₁ ++ .kept c :: s₂ ∧ u = after s₁ ∧ v = c :: after s₂) ∨
      ∃ s₁ old x y s₂, segs = s₁ ++ .replaced old (x ++ y) :: s₂ ∧ y ≠ [] ∧ u = after s₁ ++ x ∧
        v = y ++ after s₂ := by
  induction segs generalizing u with
  | nil => exact absurd (List.append_eq_nil_iff.1 h.symm).2 hv
  | cons segment segs ih =>
    -- The place is behind the first segment.
    have behind {w : Text} (hu : u = segment.after ++ w) (h : after segs = w ++ v) :
        (∃ s₁ c s₂, segment :: segs = s₁ ++ .kept c :: s₂ ∧ u = after s₁ ∧ v = c :: after s₂) ∨
          ∃ s₁ old x y s₂, segment :: segs = s₁ ++ .replaced old (x ++ y) :: s₂ ∧ y ≠ [] ∧
            u = after s₁ ++ x ∧ v = y ++ after s₂ := by
      rcases ih h with ⟨s₁, c, s₂, hs, rfl, hv⟩ | ⟨s₁, old, x, y, s₂, hs, hy, rfl, hv⟩
      · exact .inl ⟨segment :: s₁, c, s₂, by rw [hs]; rfl, hu, hv⟩
      · exact .inr ⟨segment :: s₁, old, x, y, s₂, by rw [hs]; rfl, hy, by simp [hu], hv⟩
    rw [after_cons] at h
    rcases List.append_eq_append_iff.1 h with ⟨w, hu, hw⟩ | ⟨w, hw, hv'⟩
    · exact behind hu hw
    · rcases eq_or_ne w [] with rfl | hne
      · rw [List.append_nil] at hw
        exact behind (w := []) (by rw [hw, List.append_nil]) hv'.symm
      · cases segment with
        | kept c =>
          obtain ⟨a, w, rfl⟩ := List.exists_cons_of_ne_nil hne
          have hw : [c] = u ++ a :: w := hw
          cases u with
          | nil =>
            obtain ⟨rfl, rfl⟩ := List.cons.inj hw
            exact .inl ⟨[], c, segs, rfl, rfl, hv'⟩
          | cons => simp at hw
        | replaced old new =>
          obtain rfl : new = u ++ w := hw
          exact .inr ⟨[], old, u, w, segs, rfl, hne, rfl, hv'⟩

/-- A stretch at the start of an edited text is kept as it is, or it goes on to a replacement. -/
theorem exists_kept_of_prefix (h : after segs = s ++ r) :
    (∃ segs', segs = s.map .kept ++ segs' ∧ after segs' = r) ∨
      ∃ (w old new : Text) (segs' : List Segment), segs = w.map .kept ++ .replaced old new :: segs' ∧
        w.length < s.length := by
  induction s generalizing segs with
  | nil => exact .inl ⟨segs, rfl, h⟩
  | cons a s ih =>
    cases segs with
    | nil => simp at h
    | cons segment segs =>
      cases segment with
      | kept c =>
        obtain ⟨rfl, hs⟩ := List.cons.inj h
        rcases ih hs with ⟨segs', rfl, hr⟩ | ⟨w, old, new, segs', rfl, hw⟩
        · exact .inl ⟨segs', rfl, hr⟩
        · exact .inr ⟨c :: w, old, new, segs', rfl, Nat.succ_lt_succ hw⟩
      | replaced old new => exact .inr ⟨[], old, new, segs, rfl, Nat.succ_pos _⟩

/-- What is nested closes nothing that was open before. -/
theorem ne_of_nested {depth : Nat} {w : Text} (hnew : Nested .parentheses new)
    (hi : depthAfter? .parentheses depth inner = some 0) : new ≠ inner ++ ')' :: w := by
  rintro rfl
  have := depthAfter?_of_nested (by decide) hnew depth
  rw [depthAfter?_append, hi] at this
  cases this

/-- What closes in an edited text closes at a character that is kept, if what is replaced is nested and
what is put in its place is too. -/
theorem exists_closing {depth : Nat}
    (hsegs : ∀ old new, .replaced old new ∈ segs → Nested .parentheses old ∧ Nested .parentheses new)
    (h : after segs = inner ++ ')' :: rest) (hi : depthAfter? .parentheses depth inner = some 0) :
    ∃ s₁ s₂, segs = s₁ ++ .kept ')' :: s₂ ∧ inner = after s₁ ∧
      depthAfter? .parentheses depth (before s₁) = some 0 := by
  have hd : Delimiters.parentheses.Distinct := by decide
  induction segs generalizing depth inner with
  | nil => simp at h
  | cons segment segs ih =>
    have ih {depth : Nat} {inner : Text} := @ih inner depth fun old new hmem =>
      hsegs old new (List.mem_cons_of_mem _ hmem)
    cases segment with
    | kept c =>
      cases inner with
      | nil =>
        obtain ⟨rfl, -⟩ := List.cons.inj h
        exact ⟨[], segs, rfl, rfl, hi⟩
      | cons a inner =>
        obtain ⟨rfl, hs⟩ := List.cons.inj h
        rw [← List.singleton_append, depthAfter?_append, Option.bind_eq_some_iff] at hi
        obtain ⟨k, hk, hi⟩ := hi
        obtain ⟨s₁, s₂, rfl, rfl, hbefore⟩ := ih hs hi
        refine ⟨.kept c :: s₁, s₂, rfl, rfl, ?_⟩
        change depthAfter? _ depth ([c] ++ before s₁) = _
        rw [depthAfter?_append, hk]
        exact hbefore
    | replaced old new =>
      obtain ⟨hold, hnew⟩ := hsegs old new List.mem_cons_self
      have behind {w : Text} (hw : inner = new ++ w) (h : after segs = w ++ ')' :: rest) :
          ∃ s₁ s₂, .replaced old new :: segs = s₁ ++ .kept ')' :: s₂ ∧ inner = after s₁ ∧
            depthAfter? .parentheses depth (before s₁) = some 0 := by
        rw [hw, depthAfter?_append, depthAfter?_of_nested hd hnew, Option.bind_some] at hi
        obtain ⟨s₁, s₂, rfl, rfl, hbefore⟩ := ih h hi
        refine ⟨.replaced old new :: s₁, s₂, rfl, hw, ?_⟩
        change depthAfter? _ depth (old ++ before s₁) = _
        rw [depthAfter?_append, depthAfter?_of_nested hd hold, Option.bind_some, hbefore]
      rw [after_cons] at h
      rcases List.append_eq_append_iff.1 h with ⟨w, hw, h⟩ | ⟨w, hw, h⟩
      · exact behind hw h
      · cases w with
        | nil =>
          rw [List.append_nil] at hw
          exact behind (w := []) (by rw [List.append_nil, ← hw]; rfl) h.symm
        | cons a w =>
          obtain ⟨rfl, -⟩ := List.cons.inj h
          exact absurd hw (ne_of_nested hnew hi)

/-! Places in what an action cuts. -/

theorem Cut.converts (h : Cut action front segs) (hmem : .replaced old new ∈ segs) :
    action.Converts old new := by
  induction h with
  | last => simp at hmem
  | call _ _ hnew _ ih =>
    simp only [List.mem_append, List.mem_map, List.mem_cons, reduceCtorEq, and_false, exists_false,
      false_or] at hmem
    rcases hmem with heq | hmem
    · cases heq
      exact hnew
    · exact ih hmem

/-- No call is converted that begins at a character that is kept. -/
theorem Cut.declined (h : Cut action front segs) (hs : segs = s₁ ++ .kept c :: s₂)
    (hcall : c :: before s₂ = call ++ rest) (hat : action.CallAt (front ++ before s₁) call rest) :
    ¬action.Converts call new := by
  induction h generalizing s₁ with
  | @last front gap hgap =>
    obtain ⟨g, g', rfl, rfl, hg'⟩ := List.map_eq_append_iff.1 hs
    obtain ⟨a, g', rfl, hc, rfl⟩ := List.map_eq_cons_iff.1 hg'
    obtain rfl := Segment.kept.inj hc
    rw [before_kept] at hcall hat
    exact hgap.declined rfl (List.cons_ne_nil _ _) (by rw [List.append_nil, hcall]) hat
  | @call front gap old put segs hgap _ _ _ ih =>
    rcases List.append_eq_append_iff.1 hs with ⟨w, rfl, hw⟩ | ⟨w, hw, hs₂⟩
    · cases w with
      | nil => cases hw
      | cons segment w =>
        obtain ⟨rfl, rfl⟩ := List.cons.inj hw
        rw [before_append, before_kept, before_cons] at hat
        refine ih rfl ?_
        simpa only [List.append_assoc, Segment.before] using hat
    · obtain ⟨g, g', rfl, rfl, rfl⟩ := List.map_eq_append_iff.1 hw
      cases g' with
      | nil => cases hs₂
      | cons a g' =>
        obtain ⟨hc, rfl⟩ := List.cons.inj hs₂
        obtain rfl := Segment.kept.inj hc
        rw [before_kept] at hat
        refine hgap.declined rfl (List.cons_ne_nil _ _) ?_ hat
        have hs₂ : before (g'.map .kept ++ .replaced old put :: segs) = g' ++ (old ++ before segs) := by
          rw [before_append, before_kept, before_cons]
          rfl
        rw [← hcall]
        exact congrArg (c :: ·) hs₂.symm

end BackendMigration.Adaptation
