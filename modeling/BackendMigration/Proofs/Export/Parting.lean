import BackendMigration.Proofs.Export.Behind

/-! Two exports that go on in step until one of them is told to stop. -/
namespace BackendMigration.Export

open Traced (Tells Shaped noteStop)

variable {session : Session} {ctx : Context} {n : Nat} {α β γ : Type}

/-- The fetches of an export so far, the last one first. -/
def Request.isFetch : Request → Bool
  | .fetch .. => true
  | .list _ => false

def State.fetches (s : State) : List Request := s.requests.filter Request.isFetch

theorem Synced.fetches {s s' : State} (h : Synced session s s') : s'.fetches = s.fetches := by
  rw [h.same]
  rfl

/-- An export was told to stop. -/
structure State.Stopped (s : State) : Prop where
  cancellation : s.cancellation = ⟨some 0⟩
  cancelled : s.result.cancelled = true

namespace Step

/-! Single runs. -/

/-- A step adds to the fetches, and in an export that was told to stop it adds none. -/
structure Fetches (m : Step α) : Prop where
  adds : ∀ s, s.fetches <:+ (m.run.run s).2.fetches
  stopped : ∀ s, s.Stopped → (m.run.run s).2.Stopped ∧ (m.run.run s).2.fetches = s.fetches

theorem Fetches.pure (a : α) : Fetches (pure a) :=
  ⟨fun _ => List.suffix_rfl, fun _ hs => ⟨hs, rfl⟩⟩

theorem Fetches.bind {m : Step α} {f : α → Step β} (hm : Fetches m) (hf : ∀ a, Fetches (f a)) :
    Fetches (m >>= f) := by
  constructor
  · intro s
    have hadds := hm.adds s
    rw [run_bind]
    generalize m.run.run s = run at hadds ⊢
    obtain ⟨e | a, t⟩ := run
    · exact hadds
    · exact hadds.trans ((hf a).adds t)
  · intro s hs
    have hstopped := hm.stopped s hs
    rw [run_bind]
    generalize m.run.run s = run at hstopped ⊢
    obtain ⟨e | a, t⟩ := run
    · exact hstopped
    · obtain ⟨ht, hfetches⟩ := hstopped
      rw [← hfetches]
      exact (hf a).stopped t ht

theorem Fetches.mapM {f : α → Step β} (h : ∀ a, Fetches (f a)) (l : List α) : Fetches (l.mapM f) := by
  induction l with
  | nil => exact pure []
  | cons a rest ih =>
    rw [List.mapM_cons]
    exact (h a).bind fun _ => ih.bind fun _ => pure _

theorem Fetches.of_tells {T : Traced α} {m : Step α} {part : Part}
    (h : Tells ctx T m (Shaped ctx part)) : Fetches m := by
  constructor
  · intro s
    obtain ⟨events, -, hacts, -⟩ := h s []
    rw [State.fetches, State.fetches, hacts.requests, List.filter_append]
    exact List.suffix_append ..
  · intro s hs
    obtain ⟨events, -, hacts, hshape⟩ := h s []
    obtain ⟨hno, ht⟩ := hacts.stopped hs.cancellation
    refine ⟨⟨ht, hacts.cancelled.2 (.inl hs.cancelled)⟩, ?_⟩
    have hnone : ∀ request ∈ (requested events).reverse, ¬request.isFetch = true := by
      intro request hmem hfetch
      obtain ⟨event, hevent, hrequest⟩ := List.mem_filterMap.1 (List.mem_reverse.1 hmem)
      cases event with
      | fetched above path limit offset => exact hno (hshape.asked_of_fetched hevent)
      | listed v => cases hrequest; cases hfetch
      | _ => cases hrequest
    rw [State.fetches, State.fetches, hacts.requests, List.filter_append,
      List.filter_eq_nil_iff.2 hnone, List.nil_append]

/-! Two runs, of which the second one is behind. -/

/-- A run that comes to its end has a counterpart that does so too and stays behind. -/
def Trails (session : Session) (n : Nat) (m : Step α) (m' : Step β) : Prop :=
  ∀ s s', Behind session n s s' → ∀ a, (m.run.run s).1 = .ok a →
    ∃ b, (m'.run.run s').1 = .ok b ∧ Behind session n (m.run.run s).2 (m'.run.run s').2

namespace Trails

theorem pure (a : α) (b : β) : Trails session n (pure a) (pure b) :=
  fun _ _ hs _ _ => ⟨b, rfl, hs⟩

theorem bind {m : Step α} {m' : Step β} {f : α → Step γ} {f' : β → Step γ}
    (hm : Trails session n m m') (hf : ∀ a b, Trails session n (f a) (f' b)) :
    Trails session n (m >>= f) (m' >>= f') := by
  intro s s' hs c hc
  have h := hm s s' hs
  rw [run_bind] at hc ⊢
  rw [run_bind]
  generalize m.run.run s = run at h hc ⊢
  obtain ⟨e | a, t⟩ := run
  · cases hc
  · obtain ⟨b, hb, ht⟩ := h a rfl
    generalize m'.run.run s' = run' at hb ht ⊢
    obtain ⟨r', t'⟩ := run'
    cases hb
    exact hf a b t t' ht c hc

/-- After a step that ends alike in both states. -/
theorem of_alike {m : Step α} {f : α → Step γ}
    (hm : Alike (Behind session n) (fun _ _ => True) Eq m m)
    (hf : ∀ a, Trails session n (f a) (f a)) : Trails session n (m >>= f) (m >>= f) := by
  intro s s' hs c hc
  obtain ⟨hends, ht⟩ := hm s s' hs
  rw [run_bind] at hc ⊢
  rw [run_bind]
  generalize m.run.run s = run at hends ht hc ⊢
  generalize m.run.run s' = run' at hends ht ⊢
  obtain ⟨r, t⟩ := run
  obtain ⟨r', t'⟩ := run'
  cases hends with
  | error => cases hc
  | @ok a b heq =>
    subst heq
    exact hf a t t' ht c hc

theorem mapM {f : α → Step β} (h : ∀ a, Trails session n (f a) (f a)) (l : List α) :
    Trails session n (l.mapM f) (l.mapM f) := by
  induction l with
  | nil => exact pure [] []
  | cons a rest ih =>
    rw [List.mapM_cons]
    exact (h a).bind fun _ _ => ih.bind fun _ _ => pure _ _

end Trails

/-- The first state goes further ahead, whatever comes of it. -/
def Leads (session : Session) (n : Nat) (m : Step α) : Prop :=
  ∀ s s', Behind session n s s' → Behind session n (m.run.run s).2 s'

/-- The second state comes to an end and stays behind. -/
def Lags (session : Session) (n : Nat) (m : Step α) : Prop :=
  ∀ s s', Behind session n s s' →
    (∃ a, (m.run.run s').1 = .ok a) ∧ Behind session n s (m.run.run s').2

theorem Trails.of_lags {m : Step α} {m' : Step β} (hl : Leads session n m) (hl' : Lags session n m') :
    Trails session n m m' := by
  intro s s' hs a _
  obtain ⟨⟨b, hb⟩, hs'⟩ := hl' s s' hs
  exact ⟨b, hb, hl s _ hs'⟩

theorem Leads.of_tells {T : Traced α} {m : Step α} {part : Part}
    (h : Tells ctx T m (Shaped ctx part))
    (hpart : ∀ complete events, Shape ctx part complete events →
      ∀ event ∈ events, ∀ v record, event = .offered v record → n ≤ v.relation.length) :
    Leads session n m := by
  intro s s' hs
  obtain ⟨events, -, hacts, hshape⟩ := h s []
  exact hs.ahead hacts (hpart _ _ hshape)

theorem Lags.of_tells {T : Traced α} {m : Step α} {part : Part}
    (h : Tells ctx T m (Shaped ctx part)) (hpart : part.Asks) : Lags session n m := by
  intro s s' hs
  obtain ⟨events, -, hacts, hshape⟩ := h s' []
  obtain ⟨hcomplete, hidle⟩ := hshape.idle hpart (hacts.stopped hs.stopped).1
  refine ⟨?_, hs.stay hacts hidle⟩
  generalize (m.run.run s').1 = r at hcomplete
  cases r with
  | error e => cases hcomplete
  | ok a => exact ⟨a, rfl⟩

/-! Two runs that begin in step. -/

/-- Of two runs the second one was told to stop: it has fetched what the first one had fetched by then,
and if the first one comes to its end, so does the second one. -/
structure Parted (session : Session) (n : Nat)
    (run run' : Except Relation.WriteError α × State) : Prop where
  stopped : run'.2.Stopped
  fetches : run'.2.fetches <:+ run.2.fetches
  behind : ∀ a, run.1 = .ok a → ∃ b, run'.1 = .ok b ∧ Behind session n run.2 run'.2

/-- Two runs that begin in step end in step, or the second one is told to stop. -/
def Departs (session : Session) (n : Nat) (m : Step α) : Prop :=
  ∀ s s', Synced session s s' →
    ((m.run.run s).1 = (m.run.run s').1 ∧ Synced session (m.run.run s).2 (m.run.run s').2) ∨
      Parted session n (m.run.run s) (m.run.run s')

namespace Departs

/-- After a step that ends alike in states that are in step. -/
theorem of_synced {m : Step α} {f : α → Step β} (hm : Alike (Synced session) Eq Eq m m)
    (hf : ∀ a, Departs session n (f a)) : Departs session n (m >>= f) := by
  intro s s' hs
  obtain ⟨hends, ht⟩ := hm s s' hs
  rw [run_bind, run_bind]
  generalize m.run.run s = run at hends ht ⊢
  generalize m.run.run s' = run' at hends ht ⊢
  obtain ⟨r, t⟩ := run
  obtain ⟨r', t'⟩ := run'
  cases hends with
  | ok h =>
    subst h
    exact hf _ t t' ht
  | error h =>
    subst h
    exact .inl ⟨rfl, ht⟩

theorem pure (a : α) : Departs session n (pure a) := fun _ _ hs => .inl ⟨rfl, hs⟩

theorem mono {m : Step α} (h : Departs session n m) {k : Nat} (hk : k ≤ n) : Departs session k m := by
  intro s s' hs
  refine (h s s' hs).imp_right fun hparted => ⟨hparted.stopped, hparted.fetches, fun a ha => ?_⟩
  obtain ⟨b, hb, hbehind⟩ := hparted.behind a ha
  exact ⟨b, hb, hbehind.mono hk⟩

theorem bind {m : Step α} {f : α → Step β} (hm : Departs session n m)
    (hf : ∀ a, Departs session n (f a)) (hfetches : ∀ a, Fetches (f a))
    (htrails : ∀ a b, Trails session n (f a) (f b)) : Departs session n (m >>= f) := by
  intro s s' hs
  have h := hm s s' hs
  rw [run_bind, run_bind]
  generalize m.run.run s = run at h ⊢
  generalize m.run.run s' = run' at h ⊢
  obtain ⟨r, t⟩ := run
  obtain ⟨r', t'⟩ := run'
  -- If the second run was told to stop in `m`, it fetches nothing in `f`, whether or not the first one
  -- comes to it.
  rcases h with ⟨heq, ht⟩ | ⟨hstopped, hfetched, hbehind⟩
  · dsimp only at heq
    subst heq
    cases r with
    | error e => exact .inl ⟨rfl, ht⟩
    | ok a => exact hf a t t' ht
  · right
    cases r with
    | error e =>
      cases r' with
      | error e' => exact ⟨hstopped, hfetched, fun _ h => nomatch h⟩
      | ok b =>
        obtain ⟨hstopped', hsame⟩ := (hfetches b).stopped t' hstopped
        exact ⟨hstopped', hsame ▸ hfetched, fun _ h => nomatch h⟩
    | ok a =>
      obtain ⟨b, hb, ht⟩ := hbehind a rfl
      cases hb
      obtain ⟨hstopped', hsame⟩ := (hfetches b).stopped t' hstopped
      refine ⟨hstopped', ?_, fun c hc => htrails a b t t' ht c hc⟩
      dsimp only
      rw [hsame]
      exact hfetched.trans ((hfetches a).adds t)

/-- The export asks whether to stop, and goes on unless it is told so. -/
theorem asked {a : α} {go : Step α}
    (hfetches : Fetches (noteStop >>= fun stop => if stop then Pure.pure a else go))
    (hleads : Leads session n (noteStop >>= fun stop => if stop then Pure.pure a else go))
    (hgo : Departs session n go) :
    Departs session n (noteStop >>= fun stop => if stop then Pure.pure a else go) := by
  intro s s' hs
  cases hask : s'.cancellation.ask.1 with
  | false =>
    have hgoing : Runs noteStop s false s := (runs_isCancelled hs.going).bind rfl
    rw [run_of_bind hgoing, run_of_bind (Traced.runs_noteStop_of_go hask)]
    refine hgo s _ ⟨?_, hs.going, hs.accounted⟩
    rw [hs.same]
  | true =>
    have hstopped : Runs (noteStop >>= fun stop => if stop then Pure.pure a else go) s' a _ :=
      (Traced.runs_noteStop_of_stop hask).bind rfl
    have hcancellation : s'.cancellation.ask.2 = ⟨some 0⟩ :=
      (Cancellation.ask_again hask).trans (Cancellation.eq_of_ask hask)
    rw [hstopped]
    refine .inr ⟨⟨hcancellation, rfl⟩, ?_, fun _ _ => ⟨a, rfl, ?_⟩⟩
    · change s'.fetches <:+ _
      rw [hs.fetches]
      exact hfetches.adds s
    · exact hleads s _ (hs.behind n rfl rfl rfl rfl hcancellation)

end Departs

/-- Of two runs of a step, in step at first, the second one may be told to stop. -/
structure Cut (session : Session) (n : Nat) (m : Step α) : Prop where
  fetches : Fetches m
  trails : Trails session n m m
  departs : Departs session n m

theorem Cut.mapM {f : α → Step β} (h : ∀ a, Cut session n (f a)) (l : List α) :
    Cut session n (l.mapM f) := by
  refine ⟨.mapM (fun a => (h a).fetches) l, .mapM (fun a => (h a).trails) l, ?_⟩
  induction l with
  | nil => exact .pure []
  | cons a rest ih =>
    rw [List.mapM_cons]
    refine (h a).departs.bind (fun b => ?_) (fun b => ?_) fun b b' => ?_
    · exact ih.bind (fun _ => .pure _) (fun _ => .pure _) fun _ _ => .pure _ _
    · exact (Fetches.mapM (fun a => (h a).fetches) rest).bind fun _ => .pure _
    · exact (Trails.mapM (fun a => (h a).trails) rest).bind fun _ _ => .pure _ _

theorem forIn_eq_mapM (f : α → Step β) (l : List α) :
    (forIn l PUnit.unit fun a _ => do
      let _ ← f a
      Pure.pure (ForInStep.yield PUnit.unit)) =
    (do
      let _ ← l.mapM f
      Pure.pure PUnit.unit) := by
  induction l with
  | nil => rfl
  | cons a rest ih =>
    rw [List.forIn_cons, List.mapM_cons, bind_assoc, bind_assoc]
    refine bind_congr fun _ => ?_
    rw [pure_bind, bind_assoc]
    exact ih

theorem Cut.forIn {f : α → Step β} (h : ∀ a, Cut session n (f a)) (l : List α) :
    Cut session n
      (forIn l PUnit.unit fun a _ => do
        let _ ← f a
        Pure.pure (ForInStep.yield PUnit.unit)) := by
  have hl := Cut.mapM h l
  rw [forIn_eq_mapM]
  exact ⟨hl.fetches.bind fun _ => .pure _, hl.trails.bind fun _ _ => .pure _ _,
    hl.departs.bind (fun _ => .pure _) (fun _ => .pure _) fun _ _ => .pure _ _⟩

end Step
end BackendMigration.Export
