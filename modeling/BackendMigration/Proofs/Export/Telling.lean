import BackendMigration.Proofs.Export.Course
import BackendMigration.Proofs.Export.Shape

/-! An export that keeps a trace does what the export does, and its trace has the course of one. -/
namespace BackendMigration.Export

open Sustained (IsWritten)

namespace Traced

variable {α β : Type}

/-- A step with a trace does what a step does. What it adds to the trace leads from the state before it to
the one after it, and is as its result tells. -/
def Tells (ctx : Context) (T : Traced α) (m : Step α)
    (P : Except Relation.WriteError α → List Event → Prop) : Prop :=
  ∀ s told, ∃ new, T.run.run (s, told) = ((m.run.run s).1, ((m.run.run s).2, told ++ new)) ∧
    Acts ctx s new (m.run.run s).2 ∧ P (m.run.run s).1 new

theorem run_bind (T : Traced α) (F : α → Traced β) (x : State × List Event) :
    (T >>= F).run.run x =
      match T.run.run x with
      | (.ok a, y) => (F a).run.run y
      | (.error e, y) => (.error e, y) := by
  rw [ExceptT.run_bind, StateT.run_bind]
  rcases T.run.run x with ⟨_ | _, y⟩ <;> rfl

theorem run_silently (m : Step α) (s : State) (told : List Event) :
    (silently m).run.run (s, told) = ((m.run.run s).1, ((m.run.run s).2, told)) :=
  rfl

theorem run_tell (event : Event) (s : State) (told : List Event) :
    (tell event).run.run (s, told) = (.ok (), (s, told ++ [event])) :=
  rfl

theorem run_attempt (m : Step Unit) (s : State) :
    (attempt m).run.run s = (.ok (m.run.run s).1, (m.run.run s).2) := by
  unfold attempt
  rw [Step.run_tryCatch, Step.run_bind]
  rcases m.run.run s with ⟨_ | _, t⟩ <;> rfl

variable {ctx : Context} {v : Visit} {T : Traced α} {m : Step α}
  {P Q : Except Relation.WriteError α → List Event → Prop}

namespace Tells

theorem pure {a : α} (h : P (.ok a) []) : Tells ctx (pure a) (pure a) P :=
  fun s told => ⟨[], by rw [List.append_nil]; rfl, .nil s, h⟩

theorem bind {F : α → Traced β} {f : α → Step β} {R : Except Relation.WriteError β → List Event → Prop}
    (h : Tells ctx T m P)
    (hf : ∀ a events, P (.ok a) events → Tells ctx (F a) (f a) fun r more => R r (events ++ more))
    (he : ∀ e events, P (.error e) events → R (.error e) events) :
    Tells ctx (T >>= F) (m >>= f) R := by
  intro s told
  obtain ⟨new, hrun, hacts, hp⟩ := h s told
  rw [run_bind, hrun, Step.run_bind]
  generalize m.run.run s = run at hacts hp ⊢
  obtain ⟨e | a, t⟩ := run
  · exact ⟨new, rfl, hacts, he e new hp⟩
  · obtain ⟨more, hrun', hacts', hr⟩ := hf a new hp t (told ++ new)
    refine ⟨new ++ more, ?_, hacts.append hacts', hr⟩
    rw [← List.append_assoc]
    exact hrun'

theorem mono (h : Tells ctx T m P) (hpq : ∀ r events, P r events → Q r events) :
    Tells ctx T m Q := by
  intro s told
  obtain ⟨new, hrun, hacts, hp⟩ := h s told
  exact ⟨new, hrun, hacts, hpq _ _ hp⟩

end Tells

/-! Steps that are one event. -/

theorem tells_act {event : Event} {m : Step Unit}
    (h : ∀ s, ∃ t, Step.Runs m s () t ∧ Act ctx s event t) :
    Tells ctx (act event m) m fun r events => r = .ok () ∧ events = [event] := by
  intro s told
  obtain ⟨t, hrun, hact⟩ := h s
  have hrun' : m.run.run s = (.ok (), t) := hrun
  refine ⟨[event], ?_, ?_, ?_⟩
  · rw [act, run_bind, run_silently, hrun']
    exact run_tell event t told
  · rw [hrun']
    exact .single hact
  · rw [hrun']
    exact ⟨rfl, rfl⟩

theorem runs_noteStop_of_go {s : State} (h : s.cancellation.ask.1 = false) :
    Step.Runs noteStop s false { s with cancellation := s.cancellation.ask.2 } := by
  have hasked : Step.Runs isCancelled s s.cancellation.ask.1
      { s with cancellation := s.cancellation.ask.2 } := rfl
  rw [h] at hasked
  exact hasked.bind rfl

theorem runs_noteStop_of_stop {s : State} (h : s.cancellation.ask.1 = true) :
    Step.Runs noteStop s true { s with
      result := { s.result with cancelled := true }
      cancellation := s.cancellation.ask.2 } := by
  have hasked : Step.Runs isCancelled s s.cancellation.ask.1
      { s with cancellation := s.cancellation.ask.2 } := rfl
  rw [h] at hasked
  exact hasked.bind rfl

theorem exists_act_noteStop (ctx : Context) (s : State) : ∃ stop t, Step.Runs noteStop s stop t ∧
    Act ctx s (.asked stop) t := by
  cases h : s.cancellation.ask.1 with
  | false => exact ⟨false, _, runs_noteStop_of_go h, .goes h⟩
  | true => exact ⟨true, _, runs_noteStop_of_stop h, .stops h⟩

theorem tells_ask :
    Tells ctx ask noteStop fun r events => ∃ stop, r = .ok stop ∧ events = [.asked stop] := by
  intro s told
  obtain ⟨stop, t, hrun, hact⟩ := exists_act_noteStop ctx s
  have hrun' : noteStop.run.run s = (.ok stop, t) := hrun
  refine ⟨[.asked stop], ?_, ?_, ?_⟩
  · rw [ask, run_bind, run_silently, hrun']
    rfl
  · rw [hrun']
    exact .single hact
  · rw [hrun']
    exact ⟨stop, rfl, rfl⟩

theorem noteStop_eq (a : α) (go : Step α) :
    (do
      if ← isCancelled then
        updateResult fun r => { r with cancelled := true }
        return a
      go) = noteStop >>= fun stop => if stop then Pure.pure a else go := by
  rw [noteStop, bind_assoc]
  refine bind_congr fun stop => ?_
  cases stop <;> rfl

/-! Writing records. -/

theorem tells_tryWrite {written : Event} {relation : String} {depth : Int} {value : Document.Value}
    (hr : Relation.sanitize relation = relation)
    (hwritten : ∀ s w t, s.writer.write s.files relation value = (.ok w, t) → Act ctx s written { s with
      result := (s.result.ensure relation depth none).addCount relation 1
      writer := w
      files := t }) :
    Tells ctx (tryWrite (storeRecord relation depth value) written (.rejected relation value))
      (attempt (storeRecord relation depth value)) fun r events =>
        r = .ok (.ok ()) ∧ events = [written] ∨
          ∃ e, r = .ok (.error e) ∧ events = [.rejected relation value] := by
  intro s told
  rw [tryWrite, run_bind, run_silently, run_attempt, Step.run_storeRecord]
  rcases hwrite : s.writer.write s.files relation value with ⟨e | w, t⟩
  · exact ⟨_, rfl, .single (.rejected relation value hr hwrite), .inr ⟨e, rfl, rfl⟩⟩
  · exact ⟨_, rfl, .single (hwritten s w t hwrite), .inl ⟨rfl, rfl⟩⟩

theorem tells_emitAll (emissions : List (String × Document.Value)) :
    Tells ctx (emitAll emissions) (Export.emitAll emissions)
      fun _ events => ∀ event ∈ events, event.isAddition = true := by
  induction emissions with
  | nil => exact .pure fun _ h => absurd h List.not_mem_nil
  | cons a rest ih =>
    have hsanitized := Relation.sanitize_sanitize a.1
    refine Tells.bind (tells_tryWrite hsanitized fun s w t h => .emitted _ a.2 hsanitized h) ?_ ?_
    · rintro outcome events (⟨h, rfl⟩ | ⟨e, h, rfl⟩)
      · cases h
        exact ih.mono fun _ more hmore => List.forall_mem_cons.2 ⟨rfl, hmore⟩
      · cases h
        exact .pure (List.forall_mem_singleton.2 rfl)
    · rintro e events (⟨h, -⟩ | ⟨_, h, -⟩) <;> cases h

theorem tells_applyHook (relation : String) (record : Document.Entries) :
    Tells ctx (applyHook ctx relation record) (Export.applyHook ctx relation record)
      fun _ events => ∀ event ∈ events, event.isAddition = true := by
  unfold applyHook Export.applyHook
  cases Keyed.get? relation ctx.hooks with
  | none => exact .pure fun _ h => absurd h List.not_mem_nil
  | some hook =>
    refine (tells_emitAll _).bind (fun outcome events h => ?_) fun _ _ h => h
    cases outcome with
    | ok => exact .pure (by rwa [List.append_nil])
    | error e => exact .pure (by rwa [List.append_nil])

theorem tells_store (hv : Relation.sanitize v.relation = v.relation) (value : Document.Value) :
    Tells ctx (store v value) (storeRecord v.relation v.depth value) fun r events =>
      r = .ok () ∧ events = [.settled v (.written value)] ∨
        ∃ e, r = .error e ∧ events = [.rejected v.relation value] := by
  intro s told
  have hwritten : ∀ s w t, s.writer.write s.files v.relation value = (.ok w, t) →
      Act ctx s (.settled v (.written value)) _ := fun s w t h => .written v value hv h
  obtain ⟨new, hrun, hacts, hnew⟩ := tells_tryWrite hv hwritten s told
  rw [run_attempt] at hrun hacts hnew
  rw [store, run_bind, hrun]
  rcases hstore : (storeRecord v.relation v.depth value).run.run s with ⟨e | _, t⟩ <;>
    rw [hstore] at hacts hnew
  · rcases hnew with ⟨h, -⟩ | ⟨_, -, rfl⟩
    · cases h
    · exact ⟨_, rfl, hacts, .inr ⟨e, rfl, rfl⟩⟩
  · rcases hnew with ⟨-, rfl⟩ | ⟨_, h, -⟩
    · exact ⟨_, rfl, hacts, .inl ⟨rfl, rfl⟩⟩
    · cases h

theorem tells_offer (v : Visit) (record : Document.Entries) (key : String) :
    Tells ctx (offer v record key) (meet v.relation key) fun r events =>
      (∃ isNew, r = .ok isNew) ∧ events = [.offered v record] := by
  intro s told
  rw [offer, run_bind, run_silently, Step.run_meet]
  by_cases h : (v.relation, key) ∈ s.result.seen
  · rw [if_pos h]
    exact ⟨_, rfl, .single (.reoffered v record), ⟨_, rfl⟩, rfl⟩
  · rw [if_neg h]
    exact ⟨_, rfl, .single (.offered v record key h), ⟨_, rfl⟩, rfl⟩

/-- A record that is passed on is written, or it is not, or the export ends. -/
inductive Settles (v : Visit) (record : Document.Entries) :
    Except Relation.WriteError Bool → List Event → Prop where
  | written {value : Document.Value} {events : List Event}
      (h : Offering v record (some (.written value)) events) : Settles v record (.ok true) events
  | unwritten {fate : Fate} {events : List Event} (hfate : ∀ value, fate ≠ .written value)
      (h : Offering v record (some fate) events) : Settles v record (.ok false) events
  | failed {e : Relation.WriteError} {events : List Event} (h : Offering v record none events) :
      Settles v record (.error e) events

theorem tells_writeRecord (hv : Relation.sanitize v.relation = v.relation)
    (record : Document.Entries) :
    Tells ctx (writeRecord ctx v record) (Export.writeRecord ctx v.relation record
      (documentKey ctx v.relation v.collectionPath v.document) v.depth) (Settles v record) := by
  have hunwritten : ∀ {fate : Fate} {m : Step Unit} (added : List Event),
      (∀ value, fate ≠ .written value) → (∀ event ∈ added, event.isAddition = true) →
      (∀ s, ∃ t, Step.Runs m s () t ∧ Act ctx s (.settled v fate) t) →
      Tells ctx (do act (.settled v fate) m; return false) (do m; return false) fun r more =>
        Settles v record r (.offered v record :: (added ++ more)) := by
    intro fate m added hfate hadded hm
    refine (tells_act hm).bind (fun _ events h => ?_) fun e _ h => absurd h.1 (by simp)
    rw [h.2]
    exact .pure (.unwritten hfate ⟨added, hadded, by simp⟩)
  rw [Step.writeRecord_eq]
  unfold writeRecord
  dsimp only
  refine (tells_offer v record _).bind (fun isNew events h => ?_)
    fun e _ ⟨⟨_, h⟩, _⟩ => by cases h
  obtain ⟨-, rfl⟩ := h
  cases isNew with
  | false =>
    exact hunwritten [] (fun _ h => by cases h) (fun _ h => absurd h List.not_mem_nil)
      fun s => ⟨_, rfl, .repeated v⟩
  | true =>
    refine (tells_applyHook v.relation record).bind (fun outcome added hadded => ?_)
      fun e added hadded => .failed ⟨added, hadded, by simp⟩
    cases outcome with
    | fail message =>
      exact hunwritten added (fun _ h => by cases h) hadded fun s => ⟨_, rfl, .refused v _ _⟩
    | drop => exact hunwritten added (fun _ h => by cases h) hadded fun s => ⟨_, rfl, .dropped v⟩
    | keep value =>
      refine (tells_store hv value).bind ?_ ?_
      · rintro _ events (⟨-, rfl⟩ | ⟨_, h, -⟩)
        · exact .pure (.written ⟨added, hadded, rfl⟩)
        · cases h
      · rintro e events (⟨h, -⟩ | ⟨_, -, rfl⟩)
        · cases h
        · refine .failed ⟨added ++ [.rejected v.relation value], ?_, by simp⟩
          intro event hevent
          rcases List.mem_append.1 hevent with hevent | hevent
          · exact hadded event hevent
          · rw [List.mem_singleton.1 hevent]
            rfl

/-! Going through documents. -/

/-- The events of a part of an export, which comes to its end unless the export does before. -/
abbrev Shaped (ctx : Context) (part : Part) (r : Except Relation.WriteError α) (events : List Event) :
    Prop :=
  Shape ctx part r.isOk events

theorem tells_mapM {F : StoredDocument → Traced Document.Entries}
    {f : StoredDocument → Step Document.Entries} {levels : Nat} {place : StoredDocument → Visit}
    (h : ∀ d, Tells ctx (F d) (f d) (Shaped ctx (.document levels (place d)))) (ds : List StoredDocument) :
    Tells ctx (ds.mapM F) (ds.mapM f) (Shaped ctx (.documents levels (ds.map place))) := by
  induction ds with
  | nil => exact .pure (.none levels)
  | cons d rest ih =>
    rw [List.mapM_cons, List.mapM_cons]
    refine (h d).bind (fun _ events hfirst => ?_) fun _ events hfirst => .cut hfirst
    refine ih.bind (fun _ more hothers => ?_) fun _ more hothers => .next hfirst hothers
    exact .pure (.next hfirst (by rwa [List.append_nil]))

theorem tells_forIn {F : StoredDocument → Traced Document.Entries}
    {f : StoredDocument → Step Document.Entries} {levels : Nat} {place : StoredDocument → Visit}
    (h : ∀ d, Tells ctx (F d) (f d) (Shaped ctx (.document levels (place d)))) (ds : List StoredDocument) :
    Tells ctx
      (forIn ds PUnit.unit fun d _ => do
        let _ ← F d
        Pure.pure (ForInStep.yield PUnit.unit))
      (forIn ds PUnit.unit fun d _ => do
        let _ ← f d
        Pure.pure (ForInStep.yield PUnit.unit))
      (Shaped ctx (.documents levels (ds.map place))) := by
  induction ds with
  | nil => exact .pure (.none levels)
  | cons d rest ih =>
    rw [List.forIn_cons, List.forIn_cons, bind_assoc, bind_assoc]
    refine (h d).bind (fun _ events hfirst => ?_) fun _ events hfirst => .cut hfirst
    rw [pure_bind, pure_bind]
    exact ih.mono fun _ more hothers => .next hfirst hothers

theorem tells_noteFetch (v : Visit) (name : String) :
    Tells ctx (act (.fetched (some v) (v.path ++ "/" ++ name) ctx.settings.subcollectionLimit 0)
      (noteFetch ctx v name)) (noteFetch ctx v name) fun r events => r = .ok () ∧
        events = [.fetched (some v) (v.path ++ "/" ++ name) ctx.settings.subcollectionLimit 0] := by
  refine tells_act fun s => ?_
  unfold noteFetch
  dsimp only
  cases ctx.store.fetch (v.path ++ "/" ++ name) ctx.settings.subcollectionLimit 0 with
  | error message => exact ⟨_, rfl, .unfetched ..⟩
  | ok children =>
    dsimp only
    split
    · exact ⟨_, rfl, .opened ..⟩
    · exact ⟨_, rfl, .fetched ..⟩

/-- A step for documents of nested collections does what one with a trace tells. -/
def TellsBelow (ctx : Context) (levels : Nat) (v : Visit) (visit : Visit → Traced Document.Entries)
    (step : StoredDocument → String → String → Linkage → Step Document.Entries) : Prop :=
  ∀ name d, Tells ctx (visit (v.child name d))
    (step d (nestedRelation v.relation name) (v.path ++ "/" ++ name)
      ⟨v.relation, v.document.id, v.path ++ "/" ++ name⟩)
    (Shaped ctx (.document levels (v.child name d)))

variable {n : Nat} {visit : Visit → Traced Document.Entries}
  {step : StoredDocument → String → String → Linkage → Step Document.Entries}

theorem walkCollections_cons (v : Visit) (name : String) (rest : List String) :
    Export.walkCollections ctx step v.document v.relation v.depth v.path (name :: rest) = (do
      let stop ← noteStop
      if stop then return []
      else
        noteFetch ctx v name
        match ctx.store.fetch (v.path ++ "/" ++ name) ctx.settings.subcollectionLimit 0 with
        | .error _ => Export.walkCollections ctx step v.document v.relation v.depth v.path rest
        | .ok children =>
          let records ← children.mapM fun child => step child (nestedRelation v.relation name)
            (v.path ++ "/" ++ name) ⟨v.relation, v.document.id, v.path ++ "/" ++ name⟩
          let nested ← Export.walkCollections ctx step v.document v.relation v.depth v.path rest
          return (.text name, .list (records.map .map)) :: nested) := by
  rw [Export.walkCollections, noteStop_eq]
  refine bind_congr fun stop => ?_
  congr 1
  unfold noteFetch
  rw [bind_assoc]
  refine bind_congr fun _ => ?_
  cases ctx.store.fetch (v.path ++ "/" ++ name) ctx.settings.subcollectionLimit 0 with
  | error message => rfl
  | ok children =>
    dsimp only
    split
    · rfl
    · rfl

theorem tells_walkCollections (h : TellsBelow ctx n v visit step) (names : List String) :
    Tells ctx (walkCollections ctx visit v names)
      (Export.walkCollections ctx step v.document v.relation v.depth v.path names)
      (Shaped ctx (.collections n v names)) := by
  induction names with
  | nil => exact .pure (.done n v)
  | cons name rest ih =>
    rw [walkCollections_cons, walkCollections]
    refine tells_ask.bind ?_ fun _ _ ⟨_, h, _⟩ => by cases h
    rintro stop events ⟨_, h', rfl⟩
    cases h'
    cases stop with
    | true => exact .pure .stopped
    | false =>
      refine (tells_noteFetch v name).bind ?_ fun _ _ ⟨h, _⟩ => by cases h
      rintro _ events ⟨-, rfl⟩
      cases hfetch : ctx.store.fetch (v.path ++ "/" ++ name) ctx.settings.subcollectionLimit 0 with
      | error message => exact ih.mono fun _ more hothers => .unfetched hothers
      | ok children =>
        refine (tells_mapM (h name) children).bind (fun _ events hnested => ?_)
          fun _ events hnested => .interrupted hfetch hnested
        have hfetched : ∀ {complete : Bool} {more : List Event},
            Shape ctx (.collections n v rest) complete more →
            Shape ctx (.collections n v (name :: rest)) complete ([.asked false] ++
              ([.fetched (some v) (v.path ++ "/" ++ name) ctx.settings.subcollectionLimit 0] ++
                (events ++ more))) :=
          fun hothers => (Shape.fetched hfetch hnested hothers :)
        refine ih.bind (fun _ more hothers => .pure ?_) fun _ more hothers => hfetched hothers
        rw [List.append_nil]
        exact hfetched hothers

theorem tells_noteListing (v : Visit) :
    Tells ctx (act (.listed v) (noteListing ctx v)) (noteListing ctx v) fun r events =>
      r = .ok () ∧ events = [.listed v] := by
  refine tells_act fun s => ?_
  unfold noteListing
  cases ctx.store.nestedCollections v.path with
  | error message => exact ⟨_, rfl, .unlisted ..⟩
  | ok names => exact ⟨_, rfl, .listed v⟩

theorem walkDocument_eq (v : Visit) :
    Export.walkDocument ctx step v.document v.relation v.depth v.collectionPath = (do
      noteListing ctx v
      match ctx.store.nestedCollections v.path with
      | .error _ => return .map []
      | .ok names =>
        return .map (← Export.walkCollections ctx step v.document v.relation v.depth v.path names)) := by
  unfold Export.walkDocument noteListing
  dsimp only
  rw [bind_assoc]
  refine bind_congr fun _ => ?_
  change (match ctx.store.nestedCollections v.path with | .error _ => _ | .ok _ => _) = _
  cases ctx.store.nestedCollections v.path with
  | error message => rfl
  | ok names => rfl

theorem tells_walkDocument (h : TellsBelow ctx n v visit step) :
    Tells ctx (walkDocument ctx visit v)
      (Export.walkDocument ctx step v.document v.relation v.depth v.collectionPath)
      (Shaped ctx (.walk n v)) := by
  rw [walkDocument_eq, walkDocument]
  refine (tells_noteListing v).bind ?_ fun _ _ ⟨h, _⟩ => by cases h
  rintro _ events ⟨-, rfl⟩
  cases hnames : ctx.store.nestedCollections v.path with
  | error message => exact .pure .unlisted
  | ok names =>
    refine (tells_walkCollections h names).bind (fun _ events hnested => ?_)
      fun _ events hnested => .listed hnames hnested
    exact .pure (.listed hnames (by rwa [List.append_nil]))

/-- Where a record is passed on for its own sake, nothing depends on what becomes of it. -/
theorem tells_offering (hv : Relation.sanitize v.relation = v.relation)
    {record : Document.Entries} (a : α) {Q : Bool → List Event → Prop}
    (h : ∀ fate events, Offering v record fate events → Q fate.isSome events) :
    Tells ctx
      (do
        let _ ← writeRecord ctx v record
        return a)
      (do
        let _ ← Export.writeRecord ctx v.relation record
          (documentKey ctx v.relation v.collectionPath v.document) v.depth
        return a)
      fun r events => Q r.isOk events := by
  refine (tells_writeRecord hv record).bind (fun _ events hsettles => .pure ?_) fun _ events hsettles => ?_
  · rw [List.append_nil]
    cases hsettles with
    | written hoffering => exact h _ events hoffering
    | unwritten _ hoffering => exact h _ events hoffering
  · cases hsettles with
    | failed hoffering => exact h none events hoffering

theorem tells_exportDocument (ctx : Context) (n : Nat) {v : Visit}
    (hv : Relation.sanitize v.relation = v.relation) :
    Tells ctx (exportDocument ctx n v)
      (Export.exportDocument ctx n v.document v.relation v.depth v.collectionPath v.linkage)
      (Shaped ctx (.document n v)) := by
  induction n generalizing v with
  | zero =>
    unfold exportDocument Export.exportDocument
    dsimp only
    by_cases hwritten : v.depth = 0 ∨ ctx.settings.mode = .flatten
    · rw [if_pos hwritten, if_pos hwritten]
      exact tells_offering hv _ fun fate events hoffering => .written hwritten hoffering
    · rw [if_neg hwritten, if_neg hwritten]
      exact .pure (.unwritten hwritten)
  | succ n ih =>
    have hbelow : TellsBelow ctx n v (exportDocument ctx n) fun child relation path l =>
        Export.exportDocument ctx n child relation (v.depth + 1) path (some l) :=
      fun name _ => ih (Steady.sanitize_nestedRelation v.relation name)
    have hwalk := tells_walkDocument hbelow
    unfold exportDocument Export.exportDocument
    dsimp only
    cases hmode : ctx.settings.mode with
    | nest =>
      refine hwalk.bind (fun nested walk hnested => ?_) fun _ walk hnested => ?_
      · by_cases hdepth : v.depth = 0
        · rw [if_pos hdepth, if_pos hdepth]
          refine tells_offering (Q := fun complete events =>
            Shape ctx (.document (n + 1) v) complete (walk ++ events)) hv _ fun fate events hoffering => ?_
          exact .embedding hmode hdepth hnested hoffering
        · rw [if_neg hdepth, if_neg hdepth]
          refine .pure ?_
          rw [List.append_nil]
          exact .embedded hmode (fun h => absurd h hdepth) hnested
      · exact .embedded hmode (fun _ => rfl) hnested
    | flatten =>
      refine (tells_writeRecord hv v.record).bind (fun isNew events h => ?_) fun _ events h => ?_
      · cases h with
        | written h =>
          refine hwalk.bind (fun nested walk hnested => .pure ?_) fun _ walk hnested => ?_
          · rw [List.append_nil]
            exact .finished hmode h hnested
          · exact .finished hmode h hnested
        | unwritten hfate h =>
          refine .pure ?_
          rw [List.append_nil]
          exact .unfinished hmode (fun value hv => hfate value (Option.some.inj hv)) h
      · cases h with
        | failed h => exact .unfinished hmode (by rintro value ⟨⟩) h

theorem tellsBelow_exportDocument (ctx : Context) (n : Nat) (v : Visit) :
    TellsBelow ctx n v (exportDocument ctx n) fun child relation path l =>
      Export.exportDocument ctx n child relation (v.depth + 1) path (some l) :=
  fun name _ => tells_exportDocument ctx n (Steady.sanitize_nestedRelation v.relation name)

/-! The whole export. -/

theorem tells_notePage (offset : Nat) :
    Tells ctx
      (act (.fetched none ctx.settings.collection (pageSize ctx.settings offset) offset)
        (notePage ctx offset))
      (notePage ctx offset) fun r events => r = .ok () ∧
        events = [.fetched none ctx.settings.collection (pageSize ctx.settings offset) offset] := by
  refine tells_act fun s => ?_
  unfold notePage
  dsimp only
  cases ctx.store.fetch ctx.settings.collection (pageSize ctx.settings offset) offset with
  | error message => exact ⟨_, rfl, .unfetched ..⟩
  | ok batch => exact ⟨_, rfl, .fetched ..⟩

theorem exportBatches_succ (relation : String) (batches offset : Nat) :
    Export.exportBatches ctx relation (batches + 1) offset = (do
      let stop ← noteStop
      if stop then return ()
      else
        if pageSize ctx.settings offset = 0 then return ()
        else
          notePage ctx offset
          match ctx.store.fetch ctx.settings.collection (pageSize ctx.settings offset) offset with
          | .error _ => pure ()
          | .ok [] => pure ()
          | .ok batch =>
            for d in batch do
              let _ ← Export.exportDocument ctx (levels ctx.settings) d relation 0
                ctx.settings.collection none
            Export.exportBatches ctx relation batches (offset + batch.length)) := by
  rw [Export.exportBatches, noteStop_eq]
  refine bind_congr fun stop => ?_
  congr 1
  change (if pageSize ctx.settings offset = 0 then _ else _) = _
  congr 1
  unfold notePage
  dsimp only
  rw [bind_assoc]
  refine bind_congr fun _ => ?_
  change (match ctx.store.fetch ctx.settings.collection (pageSize ctx.settings offset) offset with
    | .error _ => _ | .ok [] => _ | .ok _ => _) = _
  rcases ctx.store.fetch ctx.settings.collection (pageSize ctx.settings offset) offset with
    _ | ⟨_ | ⟨d, rest⟩⟩
  · rfl
  · rfl
  · rfl

theorem tells_exportBatches (batches offset : Nat) :
    Tells ctx (exportBatches ctx batches offset)
      (Export.exportBatches ctx (Relation.sanitize ctx.settings.collection) batches offset)
      (Shaped ctx (.batches batches offset)) := by
  induction batches generalizing offset with
  | zero => exact .pure (.spent offset)
  | succ batches ih =>
    rw [exportBatches_succ, exportBatches]
    refine tells_ask.bind ?_ fun _ _ ⟨_, h, _⟩ => by cases h
    rintro stop events ⟨_, h, rfl⟩
    cases h
    cases stop with
    | true => exact .pure .cancelled
    | false =>
      change Tells ctx (if pageSize ctx.settings offset = 0 then _ else _)
        (if pageSize ctx.settings offset = 0 then _ else _) _
      by_cases hsize : pageSize ctx.settings offset = 0
      · rw [if_pos hsize, if_pos hsize]
        exact .pure (.full hsize)
      · rw [if_neg hsize, if_neg hsize]
        refine (tells_notePage offset).bind ?_ fun _ _ ⟨h, _⟩ => by cases h
        rintro _ events ⟨-, rfl⟩
        rcases hfetch : ctx.store.fetch ctx.settings.collection (pageSize ctx.settings offset) offset
          with message | ⟨_ | ⟨d, rest⟩⟩
        · exact .pure (.last hsize)
        · exact .pure (.last hsize)
        · dsimp only
          have hroot (d : StoredDocument) := tells_exportDocument ctx (levels ctx.settings)
            (v := .root ctx.settings.collection d) (Relation.sanitize_sanitize _)
          have hpage := tells_forIn hroot (d :: rest)
          refine hpage.bind (fun _ events hpage => ?_) fun _ events hpage => .broken hsize hfetch hpage
          exact (ih _).mono fun _ more hothers => (Shape.batch hsize hfetch hpage hothers :)

theorem tells_exportCollection (ctx : Context) : Tells ctx (exportCollection ctx)
    (Export.exportCollection ctx (Relation.sanitize ctx.settings.collection))
    (Shaped ctx (.batches ((ctx.store.documents ctx.settings.collection).length + 1) 0)) :=
  tells_exportBatches _ 0

end Traced

variable (e : Exporter) (settings : Settings) (period : Time.Period) (session : Session)

/-- An export that keeps a trace goes the way of the export: the walk ends alike, in the same state, and
the events lead there. -/
theorem Exporter.run_traced :
    (Traced.exportCollection ⟨e.store, e.hooks, settings, period⟩).run.run
        (.initial settings period session, []) =
      (((exportCollection ⟨e.store, e.hooks, settings, period⟩
          (Relation.sanitize settings.collection)).run.run (.initial settings period session)).1,
        (e.walked settings period session, e.trace settings period session)) ∧
    Acts ⟨e.store, e.hooks, settings, period⟩ (.initial settings period session)
      (e.trace settings period session) (e.walked settings period session) ∧
    ∃ complete, Shape ⟨e.store, e.hooks, settings, period⟩
      (.batches ((e.store.documents settings.collection).length + 1) 0) complete
      (e.trace settings period session) := by
  obtain ⟨events, hrun, hacts, hshape⟩ := Traced.tells_exportCollection
    ⟨e.store, e.hooks, settings, period⟩ (.initial settings period session) []
  have htrace : e.trace settings period session = events := by
    rw [Exporter.trace, hrun, List.nil_append]
  rw [htrace, walked, hrun, List.nil_append]
  exact ⟨rfl, hacts, _, hshape⟩

/-- The trace of an export tells what it does: with and without a trace the walk ends alike in the same
state, the events of the trace lead to this state, the requests are those of the events, and if the files
are closed, they hold what the events write. -/
structure Exporter.IsTold (e : Exporter) (order : Order) (settings : Settings) (period : Time.Period)
    (session : Session) : Prop where
  run : (Traced.exportCollection ⟨e.store, e.hooks, settings, period⟩).run.run
      (.initial settings period session, []) =
    (((exportCollection ⟨e.store, e.hooks, settings, period⟩
        (Relation.sanitize settings.collection)).run.run (.initial settings period session)).1,
      (e.walked settings period session, e.trace settings period session))
  acts : Acts ⟨e.store, e.hooks, settings, period⟩ (.initial settings period session)
    (e.trace settings period session) (e.walked settings period session)
  requests : (e.export order period session).requests = requested (e.trace settings period session)
  read : (e.export order period session).IsClosed → ∃ relations,
    (∀ a ∈ writes (e.trace settings period session), a.1 ∈ relations) ∧
    (∀ r ∈ relations, Relation.read (e.export order period session).session.files
      (session.writer.path r) =
        .ok ((writesTo r (e.trace settings period session)).map Relation.readBack)) ∧
    ∀ result, (e.export order period session).result = .ok result →
      Keyed.keys result.relations = relations

theorem Exporter.isTold {e : Exporter} {order : Order} {settings : Settings}
    (ho : order.settings = .ok settings) (period : Time.Period) (session : Session) :
    e.IsTold order settings period session := by
  obtain ⟨hrun, hacts, -⟩ := e.run_traced settings period session
  refine ⟨hrun, hacts, ?_, fun hclosed => ?_⟩
  · have hinitial : (State.initial settings period session).requests = [] := rfl
    rw [Exporter.requests_export ho, hacts.requests, hinitial, List.append_nil, List.reverse_reverse]
  · obtain ⟨attempts, haccounts, hwritten⟩ :=
      hacts.accounts (accounts_initial settings period session)
    change _ = [] ++ _ at hwritten
    rw [List.nil_append] at hwritten
    obtain ⟨⟨hknown, base, place, -, -, hfinished⟩, hresult⟩ :=
      exists_complete_of_isClosed ho hclosed haccounts
    rw [hwritten] at hknown
    refine ⟨_, hknown, fun r hr => ?_, fun result h => (hresult result h).1⟩
    rw [hfinished.read r hr, Relation.Log.writtenTo, hwritten, writesTo]

/-- The file of each relation of a result holds what the events write to it. -/
theorem Exporter.IsTold.read_of_ok {e : Exporter} {order : Order} {settings : Settings}
    {period : Time.Period} {session : Session} (h : e.IsTold order settings period session)
    {result : Result} (hresult : (e.export order period session).result = .ok result) {r : String}
    (hr : r ∈ Keyed.keys result.relations) :
    Relation.read (e.export order period session).session.files (session.writer.path r) =
      .ok ((writesTo r (e.trace settings period session)).map Relation.readBack) := by
  obtain ⟨relations, -, hread, hkeys⟩ := h.read (Outcome.isClosed_of_ok hresult)
  exact hread r (hkeys result hresult ▸ hr)

end BackendMigration.Export
