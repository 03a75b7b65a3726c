import Mathlib.Algebra.Ring.Int.Defs
import BackendMigration.Export.Action
import BackendMigration.Proofs.Export.Telling

/-! Documents that an export fetches, and what becomes of them: each one has exactly one fate, and the
counters of the result add up to the number of documents. -/
namespace BackendMigration.Export

/-- A document with the path of its collection. -/
abbrev Placed := String × StoredDocument

/-- What became of a document. -/
structure Settlement where
  placed : Placed
  fate : Fate

def Event.settlement? : Event → Option Settlement
  | settled v fate => some ⟨(v.collectionPath, v.document), fate⟩
  | _ => none

def Event.isEmission : Event → Bool
  | emitted .. => true
  | _ => false

def settlements (events : List Event) : List Settlement := events.filterMap Event.settlement?

def settledDocuments (events : List Event) : List Placed := (settlements events).map (·.placed)

/-- The documents that have one of some fates. -/
def numberOf (p : Fate → Bool) (events : List Event) : Nat :=
  (settlements events).countP fun o => p o.fate

/-- The records that hooks add. -/
def emissions (events : List Event) : Nat := events.countP Event.isEmission

/-- The documents that a request brings. -/
def Request.documents (store : Store) : Request → List Placed
  | fetch path limit offset => ((store.fetch path limit offset).toOption.getD []).map (path, ·)
  | list _ => []

/-- The documents that requests bring to be written for their own sake: all of them, but in nest mode
only those of the exported collection. -/
def fetchedDocuments (store : Store) (settings : Settings) (requests : List Request) : List Placed :=
  (requests.flatMap (·.documents store)).filter fun d =>
    settings.mode = .flatten ∨ d.1 = settings.collection

/-- An entry that a failing hook leaves. -/
def Issue.isHookFailure (i : Issue) : Bool := "Hook failed: ".toList.isPrefixOf i.message.toList

def Result.hookFailures (r : Result) : Nat := r.errors.countP Issue.isHookFailure

namespace Result

variable {r : Result} {name : String}

theorem totalRecords_eq (r : Result) : r.totalRecords = (r.relations.map (·.2.count)).sum := by
  unfold totalRecords counts
  rw [List.sum_eq_foldl, List.foldl_map, List.foldl_map]

theorem totalRecords_ensure (r : Result) (name : String) (depth : Int) (parent : Option String) :
    (r.ensure name depth parent).totalRecords = r.totalRecords := by
  have hset : ∀ es : Keyed Relation, name ∉ Keyed.keys es →
      ((Keyed.set name { name, depth, parent } es).map (·.2.count)).sum =
        (es.map (·.2.count)).sum := by
    intro es
    induction es with
    | nil => exact fun _ => rfl
    | cons e rest ih =>
      intro hname
      have hne : e.1 ≠ name := fun h => hname (h ▸ List.mem_cons_self)
      have hrest : name ∉ Keyed.keys rest := fun h => hname (List.mem_cons_of_mem e.1 h)
      simp [Keyed.set, hne, ih hrest]
  rw [totalRecords_eq, totalRecords_eq]
  unfold ensure
  split
  · rfl
  · rename_i hnew
    rw [Keyed.has_iff] at hnew
    exact hset r.relations hnew

theorem nodup_keys_ensure (h : (Keyed.keys r.relations).Nodup) (name : String) (depth : Int)
    (parent : Option String) : (Keyed.keys (r.ensure name depth parent).relations).Nodup := by
  unfold ensure
  split
  · exact h
  · exact Keyed.nodup_keys_set name _ h

/-- Where no name has two relations, records are counted once. -/
theorem totalRecords_addCount (h : (Keyed.keys r.relations).Nodup)
    (hname : name ∈ Keyed.keys r.relations) (n : Int) :
    (r.addCount name n).totalRecords = r.totalRecords + n := by
  rw [totalRecords_eq, totalRecords_eq]
  unfold addCount
  dsimp only
  generalize r.relations = es at h hname
  have hother : ∀ es : Keyed Relation, name ∉ Keyed.keys es →
      es.map (fun e => if e.1 = name then (e.1, { e.2 with count := e.2.count + n }) else e) = es := by
    intro es hes
    have hsame : ∀ e ∈ es, (if e.1 = name then (e.1, { e.2 with count := e.2.count + n }) else e) = e := by
      intro e he
      apply if_neg
      rintro rfl
      exact hes (List.mem_map_of_mem he)
    rw [List.map_congr_left hsame, List.map_id']
  induction es with
  | nil => cases hname
  | cons e rest ih =>
    obtain ⟨hfirst, hrest⟩ := List.nodup_cons.1 h
    by_cases he : e.1 = name
    · subst he
      rw [List.map_cons, hother rest hfirst]
      simp
      omega
    · have hmem : name ∈ Keyed.keys rest := (List.mem_cons.1 hname).resolve_left fun h => he h.symm
      have hsum := ih hrest hmem
      simp only [List.map_cons, if_neg he, List.sum_cons] at hsum ⊢
      omega

end Result

/-! What some events settle, and what they add to the result. -/

/-- The result counts what the events tell. -/
structure Counted (s : State) (events : List Event) (t : State) : Prop where
  distinct : (Keyed.keys t.result.relations).Nodup
  records : t.result.totalRecords =
    s.result.totalRecords + (numberOf (· matches .written _) events + emissions events : Nat)
  duplicates : t.result.duplicatesSkipped =
    s.result.duplicatesSkipped + numberOf (· matches .repeated) events
  dropped : t.result.documentsDropped =
    s.result.documentsDropped + numberOf (· matches .dropped) events
  refused : t.result.hookFailures = s.result.hookFailures + numberOf (· matches .refused) events

theorem settlements_append (events more : List Event) :
    settlements (events ++ more) = settlements events ++ settlements more :=
  List.filterMap_append

theorem numberOf_append (p : Fate → Bool) (events more : List Event) :
    numberOf p (events ++ more) = numberOf p events + numberOf p more := by
  rw [numberOf, settlements_append, List.countP_append]
  rfl

theorem emissions_append (events more : List Event) :
    emissions (events ++ more) = emissions events + emissions more :=
  List.countP_append

variable {s t u : State} {events more : List Event}

theorem Counted.refl (h : (Keyed.keys s.result.relations).Nodup) : Counted s [] s :=
  ⟨h, by simp [numberOf, settlements, emissions], by simp [numberOf, settlements],
    by simp [numberOf, settlements], by simp [numberOf, settlements]⟩

theorem Counted.trans (h : Counted s events t) (h' : Counted t more u) :
    Counted s (events ++ more) u := by
  constructor
  · exact h'.distinct
  · rw [h'.records, h.records, numberOf_append, emissions_append]
    omega
  · rw [h'.duplicates, h.duplicates, numberOf_append]
    omega
  · rw [h'.dropped, h.dropped, numberOf_append]
    omega
  · rw [h'.refused, h.refused, numberOf_append]
    omega

theorem hookFailures_addError (r : Result) (message : String) (path : Option String)
    (time : Time.Timestamp) : (r.addError message path time).hookFailures =
      r.hookFailures + if "Hook failed: ".toList.isPrefixOf message.toList then 1 else 0 := by
  rw [Result.hookFailures, Result.addError, List.countP_append, List.countP_singleton]
  rfl

/-- An event that settles nothing and adds no record. -/
theorem Counted.idle {event : Event} (hevent : event.settlement? = none)
    (hemission : event.isEmission = false) (h : (Keyed.keys t.result.relations).Nodup)
    (hrecords : t.result.totalRecords = s.result.totalRecords)
    (hduplicates : t.result.duplicatesSkipped = s.result.duplicatesSkipped)
    (hdropped : t.result.documentsDropped = s.result.documentsDropped)
    (hrefused : t.result.hookFailures = s.result.hookFailures) : Counted s [event] t := by
  have hnone : ∀ p, numberOf p [event] = 0 := by
    intro p
    simp [numberOf, settlements, hevent]
  have hno : emissions [event] = 0 := by simp [emissions, hemission]
  constructor
  · exact h
  · rw [hrecords, hnone, hno]
    omega
  · rw [hduplicates, hnone]
    omega
  · rw [hdropped, hnone]
    omega
  · rw [hrefused, hnone]
    omega

/-- A record that is written is counted once, whether it is a document's or a hook adds it. -/
theorem Counted.written {event : Event} {relation : String} {depth : Int} {w : Relation.Writer}
    {files : File.Tree} (h : (Keyed.keys s.result.relations).Nodup)
    (hone : numberOf (· matches .written _) [event] + emissions [event] = 1)
    (hnone : numberOf (· matches .repeated) [event] = 0 ∧ numberOf (· matches .dropped) [event] = 0 ∧
      numberOf (· matches .refused) [event] = 0) :
    Counted s [event] { s with
      result := (s.result.ensure relation depth none).addCount relation 1
      writer := w
      files := files } := by
  obtain ⟨hrepeated, hdropped, hrefused⟩ := hnone
  have hensured := Result.nodup_keys_ensure h relation depth none
  have hmem : relation ∈ Keyed.keys (s.result.ensure relation depth none).relations :=
    Result.mem_keys_ensure.2 (.inr rfl)
  obtain ⟨relations, hsame⟩ := s.result.ensure_eq relation depth none
  constructor
  · show (Keyed.keys ((s.result.ensure relation depth none).addCount relation 1).relations).Nodup
    rw [Result.keys_addCount]
    exact hensured
  · show ((s.result.ensure relation depth none).addCount relation 1).totalRecords = _
    rw [Result.totalRecords_addCount hensured hmem, Result.totalRecords_ensure]
    omega
  · rw [hrepeated, hsame]
    exact (Int.add_zero _).symm
  · rw [hdropped, hsame]
    exact (Int.add_zero _).symm
  · rw [hrefused, hsame]
    rfl

namespace Traced

variable {α β : Type} {ctx : Context} {p q r : List Placed} {T : Traced α} {F : α → Traced β}

/-- The documents that some events fetch. -/
def arrivals (ctx : Context) (events : List Event) : List Placed :=
  fetchedDocuments ctx.store ctx.settings (requested events)

/-- Of the documents that wait before a step and those that it fetches, it settles all but those that wait
after it, unless the export ends with it. -/
def Conserves (ctx : Context) (before after : List Placed) (T : Traced α) : Prop :=
  ∀ s told, (Keyed.keys s.result.relations).Nodup → ∃ outcome new t,
    T.run.run (s, told) = (outcome, (t, told ++ new)) ∧ Counted s new t ∧
      (outcome.isOk = true → (settledDocuments new ++ after).Perm (before ++ arrivals ctx new))

theorem settledDocuments_append (events more : List Event) :
    settledDocuments (events ++ more) = settledDocuments events ++ settledDocuments more := by
  rw [settledDocuments, settlements_append, List.map_append]
  rfl

theorem arrivals_append (events more : List Event) :
    arrivals ctx (events ++ more) = arrivals ctx events ++ arrivals ctx more := by
  simp only [arrivals, fetchedDocuments, requested, List.filterMap_append, List.flatMap_append,
    List.filter_append]

namespace Conserves

theorem pure (a : α) : Conserves ctx p p (pure a) := by
  intro s told hs
  refine ⟨.ok a, [], s, by rw [List.append_nil]; rfl, .refl hs, fun _ => ?_⟩
  show p.Perm (p ++ [])
  rw [List.append_nil]

theorem throw (e : Relation.WriteError) : Conserves ctx p q (throw e : Traced α) := by
  intro s told hs
  refine ⟨.error e, [], s, by rw [List.append_nil]; rfl, .refl hs, fun h => ?_⟩
  cases h

theorem bind (h : Conserves ctx p q T) (hF : ∀ a, Conserves ctx q r (F a)) :
    Conserves ctx p r (T >>= F) := by
  intro s told hs
  obtain ⟨outcome, new, t, hrun, hcounted, hperm⟩ := h s told hs
  cases outcome with
  | error e =>
    refine ⟨.error e, new, t, ?_, hcounted, fun h => ?_⟩
    · rw [run_bind, hrun]
    · cases h
  | ok a =>
    obtain ⟨outcome, more, u, hrun', hcounted', hperm'⟩ := hF a t (told ++ new) hcounted.distinct
    refine ⟨outcome, new ++ more, u, ?_, hcounted.trans hcounted', fun hok => ?_⟩
    · rw [run_bind, hrun, ← List.append_assoc]
      exact hrun'
    · have hfirst := hperm rfl
      have hrest := hperm' hok
      rw [settledDocuments_append, arrivals_append, List.append_assoc, ← List.append_assoc p]
      calc settledDocuments new ++ (settledDocuments more ++ r)
        _ |>.Perm (settledDocuments new ++ (q ++ arrivals ctx more)) := hrest.append_left _
        _ |>.Perm (settledDocuments new ++ q ++ arrivals ctx more) := by rw [List.append_assoc]
        _ |>.Perm (p ++ arrivals ctx new ++ arrivals ctx more) := hfirst.append_right _

/-- Documents that wait for a later step make no difference. -/
theorem frame (h : Conserves ctx p q T) (more : List Placed) :
    Conserves ctx (p ++ more) (q ++ more) T := by
  intro s told hs
  obtain ⟨outcome, new, t, hrun, hcounted, hperm⟩ := h s told hs
  refine ⟨outcome, new, t, hrun, hcounted, fun hok => ?_⟩
  calc settledDocuments new ++ (q ++ more)
    _ |>.Perm (settledDocuments new ++ q ++ more) := by rw [List.append_assoc]
    _ |>.Perm (p ++ arrivals ctx new ++ more) := (hperm hok).append_right more
    _ |>.Perm (p ++ more ++ arrivals ctx new) := by
      rw [List.append_assoc, List.append_assoc]
      exact List.perm_append_comm.append_left p

theorem mapM {F : StoredDocument → Traced β} {due : StoredDocument → List Placed}
    (h : ∀ d, Conserves ctx (due d) [] (F d)) (ds : List StoredDocument) :
    Conserves ctx (ds.flatMap due) [] (ds.mapM F) := by
  induction ds with
  | nil => exact pure []
  | cons d rest ih =>
    rw [List.mapM_cons, List.flatMap_cons]
    apply ((h d).frame (rest.flatMap due)).bind
    intro b
    apply ih.bind
    exact fun bs => pure (b :: bs)

theorem forIn {F : StoredDocument → Traced β} {due : StoredDocument → List Placed}
    (h : ∀ d, Conserves ctx (due d) [] (F d)) (ds : List StoredDocument) :
    Conserves ctx (ds.flatMap due) []
      (forIn ds PUnit.unit fun d _ => do
        let _ ← F d
        Pure.pure (ForInStep.yield PUnit.unit)) := by
  induction ds with
  | nil => exact pure PUnit.unit
  | cons d rest ih =>
    rw [List.forIn_cons, List.flatMap_cons, bind_assoc]
    apply ((h d).frame (rest.flatMap due)).bind
    intro _
    rw [pure_bind]
    exact ih

end Conserves

/-! Steps that are one event. -/

theorem conserves_act {event : Event} {m : Step Unit}
    (h : ∀ s, (Keyed.keys s.result.relations).Nodup → ∃ t, Step.Runs m s () t ∧ Counted s [event] t)
    (hperm : (settledDocuments [event] ++ q).Perm (p ++ arrivals ctx [event])) :
    Conserves ctx p q (act event m) := by
  intro s told hs
  obtain ⟨t, hrun, hcounted⟩ := h s hs
  have hrun' : m.run.run s = (.ok (), t) := hrun
  refine ⟨.ok (), [event], t, ?_, hcounted, fun _ => hperm⟩
  rw [act, run_bind, run_silently, hrun']
  exact run_tell event t told

theorem conserves_ask : Conserves ctx p p ask := by
  intro s told hs
  have hidle : ∀ stop t, t.result.relations = s.result.relations →
      t.result.duplicatesSkipped = s.result.duplicatesSkipped →
      t.result.documentsDropped = s.result.documentsDropped → t.result.errors = s.result.errors →
      Counted s [.asked stop] t := by
    intro stop t hrelations hduplicates hdropped herrors
    refine .idle rfl rfl (by rw [hrelations]; exact hs) ?_ hduplicates hdropped ?_
    · rw [Result.totalRecords_eq, Result.totalRecords_eq, hrelations]
    · rw [Result.hookFailures, Result.hookFailures, herrors]
  have hrun : ∀ stop t, Step.Runs noteStop s stop t →
      ask.run.run (s, told) = (.ok stop, (t, told ++ [.asked stop])) := by
    intro stop t hnote
    have hnote' : noteStop.run.run s = (.ok stop, t) := hnote
    rw [ask, run_bind, run_silently, hnote']
    rfl
  have hperm (stop : Bool) : (settledDocuments [.asked stop] ++ p).Perm
      (p ++ arrivals ctx [.asked stop]) := by
    show p.Perm (p ++ [])
    rw [List.append_nil]
  cases h : s.cancellation.ask.1 with
  | false =>
    exact ⟨.ok false, [.asked false], _, hrun _ _ (runs_noteStop_of_go h),
      hidle _ _ rfl rfl rfl rfl, fun _ => hperm false⟩
  | true =>
    exact ⟨.ok true, [.asked true], _, hrun _ _ (runs_noteStop_of_stop h),
      hidle _ _ rfl rfl rfl rfl, fun _ => hperm true⟩

/-! Writing records. -/

/-- An event tells of a record that is written: of one document's or of one that a hook adds. -/
structure TellsOfRecord (event : Event) : Prop where
  one : numberOf (· matches .written _) [event] + emissions [event] = 1
  repeated : numberOf (· matches .repeated) [event] = 0
  dropped : numberOf (· matches .dropped) [event] = 0
  refused : numberOf (· matches .refused) [event] = 0

theorem exists_run_tryWrite {event : Event} (hevent : TellsOfRecord event) (relation : String)
    (depth : Int) (value : Document.Value) {s : State} (hs : (Keyed.keys s.result.relations).Nodup)
    (told : List Event) : ∃ outcome new t,
      (tryWrite (storeRecord relation depth value) event (.rejected relation value)).run.run (s, told) =
        (.ok outcome, (t, told ++ [new])) ∧ Counted s [new] t ∧
      (outcome = .ok () ∧ new = event ∨ ∃ e, outcome = .error e ∧ new = .rejected relation value) := by
  rw [tryWrite, run_bind, run_silently, run_attempt, Step.run_storeRecord]
  rcases s.writer.write s.files relation value with ⟨e | w, files⟩
  · exact ⟨_, _, _, rfl, .idle rfl rfl hs rfl rfl rfl rfl, .inr ⟨e, rfl, rfl⟩⟩
  · have hcounted : Counted s [event] { s with
        result := (s.result.ensure relation depth none).addCount relation 1
        writer := w
        files := files } :=
      .written hs hevent.one ⟨hevent.repeated, hevent.dropped, hevent.refused⟩
    exact ⟨_, _, _, rfl, hcounted, .inl ⟨rfl, rfl⟩⟩

theorem conserves_emitAll (emissions : List (String × Document.Value)) :
    Conserves ctx p p (emitAll emissions) := by
  induction emissions with
  | nil => exact .pure _
  | cons a rest ih =>
    have hevent : TellsOfRecord (.emitted (Relation.sanitize a.1) a.2) := ⟨rfl, rfl, rfl, rfl⟩
    have hwrite : Conserves ctx p p (tryWrite (emit a.1 a.2)
        (.emitted (Relation.sanitize a.1) a.2) (.rejected (Relation.sanitize a.1) a.2)) := by
      intro s told hs
      obtain ⟨outcome, new, t, hrun, hcounted, hnew⟩ :=
        exists_run_tryWrite hevent (Relation.sanitize a.1) 0 a.2 hs told
      refine ⟨_, [new], t, hrun, hcounted, fun _ => ?_⟩
      have hnothing : settledDocuments [new] = [] ∧ arrivals ctx [new] = [] := by
        rcases hnew with ⟨-, rfl⟩ | ⟨_, -, rfl⟩ <;> exact ⟨rfl, rfl⟩
      rw [hnothing.1, hnothing.2, List.append_nil]
      exact .refl p
    unfold emitAll
    apply hwrite.bind
    intro outcome
    cases outcome with
    | ok => exact ih
    | error e => exact .pure _

theorem conserves_applyHook (relation : String) (record : Document.Entries) :
    Conserves ctx p p (applyHook ctx relation record) := by
  unfold applyHook
  cases Keyed.get? relation ctx.hooks with
  | none => exact .pure _
  | some hook =>
    apply (conserves_emitAll _).bind
    intro outcome
    cases outcome with
    | ok => exact .pure _
    | error e => exact .pure _

/-- A document with its place. -/
def placedOf (v : Visit) : Placed := (v.collectionPath, v.document)

theorem conserves_store (v : Visit) (value : Document.Value) :
    Conserves ctx [placedOf v] [] (store v value) := by
  intro s told hs
  have hevent : TellsOfRecord (.settled v (.written value)) := ⟨rfl, rfl, rfl, rfl⟩
  obtain ⟨outcome, new, t, hrun, hcounted, hnew⟩ :=
    exists_run_tryWrite hevent v.relation v.depth value hs told
  rw [store, run_bind, hrun]
  rcases hnew with ⟨rfl, rfl⟩ | ⟨e, rfl, rfl⟩
  · exact ⟨.ok (), _, t, rfl, hcounted, fun _ => .refl _⟩
  · exact ⟨.error e, _, t, rfl, hcounted, Bool.noConfusion⟩

theorem conserves_offer (v : Visit) (record : Document.Entries) (key : String) :
    Conserves ctx p p (offer v record key) := by
  intro s told hs
  have hperm : (settledDocuments [.offered v record] ++ p).Perm
      (p ++ arrivals ctx [.offered v record]) := by
    show p.Perm (p ++ [])
    rw [List.append_nil]
  rw [offer, run_bind, run_silently, Step.run_meet]
  by_cases h : (v.relation, key) ∈ s.result.seen
  · rw [if_pos h]
    exact ⟨_, [_], _, rfl, .idle rfl rfl hs rfl rfl rfl rfl, fun _ => hperm⟩
  · rw [if_neg h]
    exact ⟨_, [_], _, rfl, .idle rfl rfl hs rfl rfl rfl rfl, fun _ => hperm⟩

theorem counted_repeated (hs : (Keyed.keys s.result.relations).Nodup) (v : Visit) :
    Counted s [.settled v .repeated] { s with
      result := { s.result with duplicatesSkipped := s.result.duplicatesSkipped + 1 } } where
  distinct := hs
  records := (Int.add_zero _).symm
  duplicates := rfl
  dropped := (Int.add_zero _).symm
  refused := rfl

theorem counted_dropped (hs : (Keyed.keys s.result.relations).Nodup) (v : Visit) :
    Counted s [.settled v .dropped] { s with
      result := { s.result with documentsDropped := s.result.documentsDropped + 1 } } where
  distinct := hs
  records := (Int.add_zero _).symm
  duplicates := (Int.add_zero _).symm
  dropped := rfl
  refused := rfl

theorem counted_refused (hs : (Keyed.keys s.result.relations).Nodup) (v : Visit) (message key : String)
    (time : Time.Timestamp) : Counted s [.settled v .refused] { s with
      result := s.result.addError ("Hook failed: " ++ message) (some key) time } where
  distinct := hs
  records := (Int.add_zero _).symm
  duplicates := (Int.add_zero _).symm
  dropped := (Int.add_zero _).symm
  refused := by
    have hhook : "Hook failed: ".toList.isPrefixOf ("Hook failed: " ++ message).toList = true := by
      simp
    show (s.result.addError _ _ _).hookFailures = _
    rw [hookFailures_addError, if_pos hhook]
    rfl

/-- A document that is passed on is settled: written, or not for one of three reasons. -/
theorem conserves_writeRecord (v : Visit) (record : Document.Entries) :
    Conserves ctx [placedOf v] [] (writeRecord ctx v record) := by
  have hsettle : ∀ {fate : Fate} {m : Step Unit}, (∀ s, (Keyed.keys s.result.relations).Nodup →
      ∃ t, Step.Runs m s () t ∧ Counted s [.settled v fate] t) →
      Conserves ctx [placedOf v] [] (do act (.settled v fate) m; return false) := by
    intro fate m h
    exact (conserves_act h (.refl _)).bind fun _ => .pure false
  unfold writeRecord
  apply (conserves_offer v record _).bind
  intro isNew
  cases isNew with
  | false => exact hsettle fun s hs => ⟨_, rfl, counted_repeated hs v⟩
  | true =>
    apply (conserves_applyHook v.relation record).bind
    intro outcome
    cases outcome with
    | fail message => exact hsettle fun s hs => ⟨_, rfl, counted_refused hs v message _ _⟩
    | drop => exact hsettle fun s hs => ⟨_, rfl, counted_dropped hs v⟩
    | keep value =>
      apply (conserves_store v value).bind
      exact fun _ => .pure true

/-! Going through documents. -/

/-- What is due for a document that is met: it is settled if it is written in its own right. -/
def dueFor (ctx : Context) (v : Visit) : List Placed :=
  if v.depth = 0 ∨ ctx.settings.mode = .flatten then [placedOf v] else []

/-- Collections nested in documents have longer paths than the exported one. -/
theorem filter_nested {path : String} (h : ctx.settings.collection.length < path.length)
    (documents : List StoredDocument) :
    (documents.map (path, ·)).filter (fun d =>
      ctx.settings.mode = .flatten ∨ d.1 = ctx.settings.collection) =
    if ctx.settings.mode = .flatten then documents.map (path, ·) else [] := by
  have hne : path ≠ ctx.settings.collection := by
    rintro rfl
    exact Nat.lt_irrefl _ h
  by_cases hmode : ctx.settings.mode = .flatten
  · simp [hmode]
  · simp [hmode, hne]

theorem arrivals_fetched {above : Option Visit} {path : String} {limit offset : Nat}
    (documents : List StoredDocument)
    (h : ctx.store.fetch path limit offset = .ok documents) :
    arrivals ctx [.fetched above path limit offset] = (documents.map (path, ·)).filter fun d =>
      ctx.settings.mode = .flatten ∨ d.1 = ctx.settings.collection := by
  simp [arrivals, fetchedDocuments, requested, Event.request?, Request.documents, h, Except.toOption]

theorem arrivals_unfetched {above : Option Visit} {path message : String} {limit offset : Nat}
    (h : ctx.store.fetch path limit offset = .error message) :
    arrivals ctx [.fetched above path limit offset] = [] := by
  simp [arrivals, fetchedDocuments, requested, Event.request?, Request.documents, h, Except.toOption]

theorem not_isPrefixOf_of_head {message : String} {c : Char} (h : message.toList.head? = some c)
    (hc : c ≠ 'H') : "Hook failed: ".toList.isPrefixOf message.toList = false := by
  obtain ⟨rest, hrest⟩ := List.head?_eq_some_iff.1 h
  have hfirst : ('H' == c) = false := by simpa using hc.symm
  rw [hrest]
  simp [List.isPrefixOf, hfirst]

/-- What is noted of an answer to a request is no failure of a hook. -/
theorem counted_noted {event : Event} (hevent : event.settlement? = none)
    (hemission : event.isEmission = false) (hs : (Keyed.keys s.result.relations).Nodup)
    {result : Result} (hresult : result = s.result ∨
      (∃ name depth parent, result = s.result.ensure name depth parent) ∨
      ∃ message path time, "Hook failed: ".toList.isPrefixOf message.toList = false ∧
        result = s.result.addError message path time) (requests : List Request) :
    Counted s [event] { s with result, requests } := by
  rcases hresult with rfl | ⟨name, depth, parent, rfl⟩ | ⟨message, path, time, hmessage, rfl⟩
  · exact .idle hevent hemission hs rfl rfl rfl rfl
  · obtain ⟨relations, hsame⟩ := s.result.ensure_eq name depth parent
    refine .idle hevent hemission (Result.nodup_keys_ensure hs name depth parent) ?_ ?_ ?_ ?_
    · exact Result.totalRecords_ensure s.result name depth parent
    · show (s.result.ensure name depth parent).duplicatesSkipped = _
      rw [hsame]
    · show (s.result.ensure name depth parent).documentsDropped = _
      rw [hsame]
    · show (s.result.ensure name depth parent).hookFailures = _
      rw [hsame]
      rfl
  · refine .idle hevent hemission hs rfl rfl rfl ?_
    show (s.result.addError message path time).hookFailures = _
    rw [hookFailures_addError, hmessage]
    rfl

theorem conserves_noteFetch {v : Visit} {name : String}
    (hpath : ctx.settings.collection.length < (v.path ++ "/" ++ name).length) :
    Conserves ctx [] (((ctx.store.fetch (v.path ++ "/" ++ name) ctx.settings.subcollectionLimit 0).toOption.getD
        []).flatMap fun d => dueFor ctx (v.child name d))
      (act (.fetched (some v) (v.path ++ "/" ++ name) ctx.settings.subcollectionLimit 0)
        (noteFetch ctx v name)) := by
  have hdue : ∀ documents : List StoredDocument,
      (documents.flatMap fun d => dueFor ctx (v.child name d)) =
        (documents.map (v.path ++ "/" ++ name, ·)).filter fun d =>
          ctx.settings.mode = .flatten ∨ d.1 = ctx.settings.collection := by
    intro documents
    rw [filter_nested hpath]
    by_cases hmode : ctx.settings.mode = .flatten
    · simp only [dueFor, hmode, or_true, if_true, placedOf, Visit.child]
      exact List.flatMap_pure_eq_map _ documents
    · have hdeep : ∀ d, (v.child name d).depth ≠ 0 := fun d => Nat.succ_ne_zero v.depth
      simp [dueFor, hmode, hdeep]
  apply conserves_act
  · intro s hs
    unfold noteFetch
    dsimp only
    cases ctx.store.fetch (v.path ++ "/" ++ name) ctx.settings.subcollectionLimit 0 with
    | error message =>
      refine ⟨_, rfl, counted_noted rfl rfl hs (.inr (.inr ⟨_, _, _, ?_, rfl⟩)) _⟩
      exact not_isPrefixOf_of_head (c := 'S') (by simp) (by decide)
    | ok children =>
      dsimp only
      split
      · exact ⟨_, rfl, counted_noted rfl rfl hs (.inr (.inl ⟨_, _, _, rfl⟩)) _⟩
      · exact ⟨_, rfl, counted_noted rfl rfl hs (.inl rfl) _⟩
  · rw [List.nil_append]
    cases hfetch : ctx.store.fetch (v.path ++ "/" ++ name) ctx.settings.subcollectionLimit 0 with
    | error message =>
      rw [arrivals_unfetched hfetch]
      exact .refl _
    | ok children =>
      rw [arrivals_fetched children hfetch]
      exact .of_eq (hdue children)

theorem conserves_noteListing (v : Visit) :
    Conserves ctx p p (act (.listed v) (noteListing ctx v)) := by
  apply conserves_act
  · intro s hs
    unfold noteListing
    cases ctx.store.nestedCollections v.path with
    | error message =>
      refine ⟨_, rfl, counted_noted rfl rfl hs (.inr (.inr ⟨_, _, _, ?_, rfl⟩)) _⟩
      exact not_isPrefixOf_of_head (c := 'S') (by simp) (by decide)
    | ok names => exact ⟨_, rfl, counted_noted rfl rfl hs (.inl rfl) _⟩
  · show p.Perm (p ++ [])
    rw [List.append_nil]

theorem conserves_notePage (offset : Nat) :
    Conserves ctx [] (((ctx.store.fetch ctx.settings.collection (pageSize ctx.settings offset)
        offset).toOption.getD []).flatMap fun d => dueFor ctx (.root ctx.settings.collection d))
      (act (.fetched none ctx.settings.collection (pageSize ctx.settings offset) offset)
        (notePage ctx offset)) := by
  apply conserves_act
  · intro s hs
    unfold notePage
    dsimp only
    cases ctx.store.fetch ctx.settings.collection (pageSize ctx.settings offset) offset with
    | error message =>
      refine ⟨_, rfl, counted_noted rfl rfl hs (.inr (.inr ⟨_, _, _, ?_, rfl⟩)) _⟩
      exact not_isPrefixOf_of_head (c := 'B') (by simp) (by decide)
    | ok batch => exact ⟨_, rfl, counted_noted rfl rfl hs (.inl rfl) _⟩
  · rw [List.nil_append]
    cases hfetch : ctx.store.fetch ctx.settings.collection (pageSize ctx.settings offset) offset with
    | error message =>
      rw [arrivals_unfetched hfetch]
      exact .refl _
    | ok batch =>
      have hdue : ∀ d, dueFor ctx (.root ctx.settings.collection d) = [(ctx.settings.collection, d)] :=
        fun d => if_pos (.inl rfl)
      rw [arrivals_fetched batch hfetch, List.filter_eq_self.2 (by simp)]
      simp only [Except.toOption, Option.getD_some, hdue]
      exact .of_eq (List.flatMap_pure_eq_map _ batch)

variable {n : Nat} {v : Visit} {visit : Visit → Traced Document.Entries}

theorem conserves_walkCollections (hv : ctx.settings.collection.length ≤ v.collectionPath.length)
    (h : ∀ name d, Conserves ctx (dueFor ctx (v.child name d)) [] (visit (v.child name d)))
    (names : List String) : Conserves ctx [] [] (walkCollections ctx visit v names) := by
  induction names with
  | nil => exact .pure _
  | cons name rest ih =>
    have hpath : ctx.settings.collection.length < (v.path ++ "/" ++ name).length := by
      simp only [Visit.path, String.length_append]
      have hslash : "/".length = 1 := rfl
      omega
    unfold walkCollections
    apply conserves_ask.bind
    intro stop
    cases stop with
    | true => exact .pure _
    | false =>
      apply (conserves_noteFetch hpath).bind
      intro _
      cases ctx.store.fetch (v.path ++ "/" ++ name) ctx.settings.subcollectionLimit 0 with
      | error message => exact ih
      | ok children =>
        apply (Conserves.mapM (h name) children).bind
        intro records
        apply ih.bind
        exact fun nested => .pure _

theorem conserves_walkDocument (hv : ctx.settings.collection.length ≤ v.collectionPath.length)
    (h : ∀ name d, Conserves ctx (dueFor ctx (v.child name d)) [] (visit (v.child name d))) :
    Conserves ctx [] [] (walkDocument ctx visit v) := by
  unfold walkDocument
  apply (conserves_noteListing v).bind
  intro _
  cases ctx.store.nestedCollections v.path with
  | error message => exact .pure _
  | ok names =>
    apply (conserves_walkCollections hv h names).bind
    exact fun nested => .pure _

/-- What is due for a document is settled while it is exported, and so is all that is fetched below it. -/
theorem conserves_exportDocument (n : Nat)
    (hv : ctx.settings.collection.length ≤ v.collectionPath.length) :
    Conserves ctx (dueFor ctx v) [] (exportDocument ctx n v) := by
  induction n generalizing v with
  | zero =>
    unfold exportDocument
    dsimp only
    by_cases hdue : v.depth = 0 ∨ ctx.settings.mode = .flatten
    · rw [dueFor, if_pos hdue, if_pos hdue]
      exact (conserves_writeRecord v v.record).bind fun _ => .pure _
    · rw [dueFor, if_neg hdue, if_neg hdue]
      exact .pure _
  | succ n ih =>
    have hwalk : Conserves ctx [] [] (walkDocument ctx (exportDocument ctx n) v) := by
      apply conserves_walkDocument hv
      intro name d
      apply ih
      show _ ≤ (v.path ++ "/" ++ name).length
      simp only [Visit.path, String.length_append]
      omega
    unfold exportDocument
    dsimp only
    cases hmode : ctx.settings.mode with
    | nest =>
      apply (hwalk.frame (dueFor ctx v)).bind
      intro nested
      by_cases hdepth : v.depth = 0
      · rw [dueFor, if_pos (.inl hdepth), if_pos hdepth]
        exact (conserves_writeRecord v _).bind fun _ => .pure _
      · have hnot : ¬(v.depth = 0 ∨ ctx.settings.mode = .flatten) := by simp [hdepth, hmode]
        rw [dueFor, if_neg hnot, if_neg hdepth]
        exact .pure _
    | flatten =>
      rw [dueFor, if_pos (.inr hmode)]
      apply (conserves_writeRecord v v.record).bind
      intro isWritten
      cases isWritten with
      | false => exact .pure _
      | true => exact hwalk.bind fun _ => .pure _

theorem conserves_exportBatches (batches offset : Nat) :
    Conserves ctx [] [] (exportBatches ctx batches offset) := by
  induction batches generalizing offset with
  | zero => exact .pure _
  | succ batches ih =>
    unfold exportBatches
    apply conserves_ask.bind
    intro stop
    cases stop with
    | true => exact .pure _
    | false =>
      show Conserves ctx [] [] (if pageSize ctx.settings offset = 0 then _ else _)
      by_cases hsize : pageSize ctx.settings offset = 0
      · rw [if_pos hsize]
        exact .pure _
      · rw [if_neg hsize]
        apply (conserves_notePage offset).bind
        intro _
        rcases ctx.store.fetch ctx.settings.collection (pageSize ctx.settings offset) offset with
          message | ⟨_ | ⟨d, rest⟩⟩
        · exact .pure _
        · exact .pure _
        · have hdocument (d : StoredDocument) :=
            conserves_exportDocument (v := .root ctx.settings.collection d) (levels ctx.settings) le_rfl
          apply (Conserves.forIn hdocument (d :: rest)).bind
          exact fun _ => ih _

end Traced

/-! The whole export. -/

/-- Each fate is one of four. -/
theorem length_settledDocuments (events : List Event) : (settledDocuments events).length =
    numberOf (· matches .written _) events + numberOf (· matches .repeated) events +
      numberOf (· matches .dropped) events + numberOf (· matches .refused) events := by
  rw [settledDocuments, List.length_map]
  unfold numberOf
  induction settlements events with
  | nil => rfl
  | cons o rest ih =>
    simp only [List.length_cons, List.countP_cons, ih]
    cases o.fate
    all_goals
      simp
      omega

/-- What an export fetches is settled, and its result tells how. -/
structure Conserved (store : Store) (settings : Settings) (trace : List Event)
    (requests : List Request) (result : Result) : Prop where
  /-- Each document that is fetched has exactly one fate. -/
  settled : (settledDocuments trace).Perm (fetchedDocuments store settings requests)
  written : result.totalRecords = (numberOf (· matches .written _) trace + emissions trace : Nat)
  repeated : result.duplicatesSkipped = numberOf (· matches .repeated) trace
  dropped : result.documentsDropped = numberOf (· matches .dropped) trace
  refused : result.hookFailures = numberOf (· matches .refused) trace
  total : ((fetchedDocuments store settings requests).length : Int) =
    result.totalRecords - emissions trace + result.duplicatesSkipped + result.documentsDropped +
      result.hookFailures

theorem State.initial_counts (settings : Settings) (period : Time.Period) (session : Session) :
    (Keyed.keys (State.initial settings period session).result.relations).Nodup ∧
      (State.initial settings period session).result.totalRecords = 0 ∧
      (State.initial settings period session).result.duplicatesSkipped = 0 ∧
      (State.initial settings period session).result.documentsDropped = 0 ∧
      (State.initial settings period session).result.hookFailures = 0 := by
  let begun : Result := { collection := settings.collection, startedAt := some period.start }
  let name := Relation.sanitize settings.collection
  have hempty : (Keyed.keys begun.relations).Nodup := List.nodup_nil
  obtain ⟨relations, hsame⟩ := begun.ensure_eq name 0 none
  have hkeys := Result.nodup_keys_ensure hempty name 0 none
  have htotal := Result.totalRecords_ensure begun name 0 none
  show (Keyed.keys (begun.ensure name 0 none).relations).Nodup ∧
    (begun.ensure name 0 none).totalRecords = 0 ∧ (begun.ensure name 0 none).duplicatesSkipped = 0 ∧
    (begun.ensure name 0 none).documentsDropped = 0 ∧ (begun.ensure name 0 none).hookFailures = 0
  refine ⟨hkeys, htotal, ?_⟩
  rw [hsame]
  exact ⟨rfl, rfl, rfl⟩

theorem Result.totalRecords_completed (r : Result) (writer : Relation.Writer)
    (time : Time.Timestamp) : (r.completed writer time).totalRecords = r.totalRecords := by
  rw [totalRecords_eq, totalRecords_eq, completed, List.map_map]
  rfl

/-- The walk of an export that returns settles what it fetches. -/
theorem Exporter.settles_trace {e : Exporter} {order : Order} {settings : Settings} {period : Time.Period}
    {session : Session} {result : Result} (ho : order.settings = .ok settings)
    (h : (e.export order period session).result = .ok result) :
    Counted (.initial settings period session) (e.trace settings period session)
        (e.walked settings period session) ∧
      (settledDocuments (e.trace settings period session)).Perm
        (fetchedDocuments e.store settings (e.export order period session).requests) := by
  have htold := Exporter.isTold ho period session (e := e)
  have hkeys := (State.initial_counts settings period session).1
  let ctx : Context := ⟨e.store, e.hooks, settings, period⟩
  have hwalk : Traced.Conserves ctx _ _ _ := Traced.conserves_exportBatches
    ((e.store.documents settings.collection).length + 1) 0
  obtain ⟨outcome, new, t, hrun, hcounted, hperm⟩ :=
    hwalk (State.initial settings period session) [] hkeys
  have hends : (exportCollection ⟨e.store, e.hooks, settings, period⟩
      (Relation.sanitize settings.collection)).run.run (.initial settings period session) =
        (.ok (), e.walked settings period session) := (Exporter.runs_of_result ho h).1
  have hboth := hrun.symm.trans htold.run
  rw [hends, List.nil_append] at hboth
  obtain ⟨houtcome, hstate⟩ := Prod.mk.inj hboth
  obtain ⟨rfl, rfl⟩ := Prod.mk.inj hstate
  have hall := hperm (by rw [houtcome]; rfl)
  rw [List.append_nil, List.nil_append] at hall
  rw [htold.requests]
  exact ⟨hcounted, hall⟩

/-- Two users of one id, one who is gone, one without an age, and an order. -/
def Store.withRepeat : Store where
  collections :=
    [("users", [⟨"ada", [(.text "age", .int 36)]⟩, ⟨"ada", []⟩, ⟨"bob", [(.text "gone", .bool true)]⟩,
        ⟨"cyd", []⟩]),
      ("users/ada/orders", [⟨"first", []⟩])]
  distinct := by decide

/-- Who is gone is dropped; of the others a note is made before their age is taken away. -/
def Exporter.takingAges : Exporter :=
  ⟨.withRepeat, [("users", Hook.ofActions
    [.dropIf "gone" (.bool true), .emit "notes" (.map []), .delete "age"])]⟩

end BackendMigration.Export
