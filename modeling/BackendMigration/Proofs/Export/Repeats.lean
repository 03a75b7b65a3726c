import BackendMigration.Proofs.Export.Behind
import BackendMigration.Proofs.Export.Chains
import BackendMigration.Proofs.Export.Conservation
import BackendMigration.Proofs.Export.Identity
import BackendMigration.Proofs.Export.Nested

/-! Which documents an export counts as met before: those at a place that it has come to before, as long as
documents know their paths. -/
namespace BackendMigration.Export

open Document (Entries)

variable {ctx : Context} {due : Option (Visit × Bool)} {s t : State} {told new events : List Event}
  {event : Event} {v w : Visit} {fate : Fate} {isNew : Bool} {k : String × String}

/-- A document with a mark was settled. -/
def IsMet (ctx : Context) (events : List Event) (k : String × String) : Prop :=
  ∃ v fate, .settled v fate ∈ events ∧ v.mark ctx = k

/-- Of the documents that are settled, those count as repeated that share their marks with one before. -/
def Recognized (ctx : Context) (events : List Event) : Prop :=
  ∀ before v fate after, events = before ++ .settled v fate :: after →
    (fate = .repeated ↔ IsMet ctx before (v.mark ctx))

/-- The marks that are known are those of the documents that were settled, and of the one that is due; a
document is due from when it is passed on, new or not, to when it is settled. -/
structure Knows (ctx : Context) (due : Option (Visit × Bool)) (s : State) (told : List Event) : Prop where
  recognized : Recognized ctx told
  seen : ∀ k, k ∈ s.result.seen ↔ IsMet ctx told k ∨ ∃ d ∈ due, d.1.mark ctx = k
  isNew : ∀ d ∈ due, d.2 = false ↔ IsMet ctx told (d.1.mark ctx)

/-! Events one after another. -/

theorem isMet_append : IsMet ctx (events ++ new) k ↔ IsMet ctx events k ∨ IsMet ctx new k := by
  simp only [IsMet, List.mem_append, or_and_right, exists_or]

theorem isMet_settled : IsMet ctx [.settled v fate] k ↔ v.mark ctx = k := by
  constructor
  · rintro ⟨w, fate', h, hk⟩
    cases List.mem_singleton.1 h
    exact hk
  · intro h
    exact ⟨v, fate, List.mem_singleton_self _, h⟩

theorem not_isMet (h : ∀ v fate, .settled v fate ∉ new) (k : String × String) : ¬IsMet ctx new k :=
  fun ⟨v, fate, hmem, _⟩ => h v fate hmem

theorem isMet_append_of_unsettled (h : ∀ v fate, .settled v fate ∉ new) :
    IsMet ctx (events ++ new) k ↔ IsMet ctx events k := by
  rw [isMet_append, or_iff_left (not_isMet h k)]

theorem Recognized.concat (h : Recognized ctx events)
    (hevent : ∀ v fate, event = .settled v fate → (fate = .repeated ↔ IsMet ctx events (v.mark ctx))) :
    Recognized ctx (events ++ [event]) := by
  intro before v fate after hsplit
  rcases List.eq_nil_or_concat after with rfl | ⟨rest, last, rfl⟩
  · obtain ⟨rfl, hlast⟩ := List.append_inj' hsplit rfl
    exact hevent v fate (List.singleton_inj.1 hlast)
  · rw [List.concat_eq_append, ← List.cons_append, ← List.append_assoc] at hsplit
    exact h before v fate rest (List.append_inj' hsplit rfl).1

theorem Recognized.append_unsettled (h : Recognized ctx events) (hnew : ∀ v fate, .settled v fate ∉ new) :
    Recognized ctx (events ++ new) := by
  induction new generalizing events with
  | nil => rwa [List.append_nil]
  | cons event new ih =>
    rw [List.append_cons]
    refine ih (h.concat fun v fate heq => ?_) fun v fate hmem => hnew v fate (List.mem_cons_of_mem event hmem)
    rw [heq] at hnew
    exact absurd List.mem_cons_self (hnew v fate)

theorem Acts.mem_seen_iff (h : Acts ctx s events t) (hoffered : ∀ v record, .offered v record ∉ events)
    (k : String × String) : k ∈ t.result.seen ↔ k ∈ s.result.seen := by
  induction h with
  | nil => rfl
  | @cons _ _ _ event rest first _ ih =>
    rw [ih fun v record hmem => hoffered v record (List.mem_cons_of_mem event hmem),
      first.seen fun v record heq => ?_]
    rw [heq] at hoffered
    exact absurd List.mem_cons_self (hoffered v record)

/-- No document is passed on or settled. -/
def IsQuiet (events : List Event) : Prop :=
  (∀ v record, .offered v record ∉ events) ∧ ∀ v fate, .settled v fate ∉ events

theorem isQuiet_of_isAddition (h : ∀ event ∈ events, event.isAddition = true) : IsQuiet events := by
  constructor
  · intro v record hmem
    cases h _ hmem
  · intro v fate hmem
    cases h _ hmem

theorem Knows.acts_quiet (h : Knows ctx due s told) (hacts : Acts ctx s new t) (hnew : IsQuiet new) :
    Knows ctx due t (told ++ new) where
  recognized := h.recognized.append_unsettled hnew.2
  seen k := by rw [hacts.mem_seen_iff hnew.1, isMet_append_of_unsettled hnew.2, h.seen]
  isNew d hd := by rw [isMet_append_of_unsettled hnew.2, h.isNew d hd]

/-- A document that is passed on is due, and its mark is known from then on. -/
theorem Knows.offered (h : Knows ctx none s told) (record : Entries)
    (hnew : isNew = false ↔ v.mark ctx ∈ s.result.seen)
    (hseen : ∀ k, k ∈ t.result.seen ↔ k ∈ s.result.seen ∨ k = v.mark ctx) :
    Knows ctx (some (v, isNew)) t (told ++ [.offered v record]) := by
  have hunsettled : ∀ w fate, .settled w fate ∉ [Event.offered v record] := by simp
  have hmet (k : String × String) : IsMet ctx (told ++ [.offered v record]) k ↔ k ∈ s.result.seen := by
    rw [isMet_append_of_unsettled hunsettled, h.seen]
    simp
  refine ⟨h.recognized.append_unsettled hunsettled, fun k => ?_, fun d hd => ?_⟩
  · rw [hseen, hmet]
    simp [eq_comm]
  · obtain rfl : (v, isNew) = d := Option.some.inj hd
    rw [hmet]
    exact hnew

/-- What is due is settled. -/
theorem Knows.settled (h : Knows ctx (some (v, isNew)) s told) (hacts : Acts ctx s [.settled v fate] t)
    (hfate : fate = .repeated ↔ isNew = false) : Knows ctx none t (told ++ [.settled v fate]) where
  recognized := by
    refine h.recognized.concat ?_
    rintro _ _ ⟨⟩
    exact hfate.trans (h.isNew _ rfl)
  seen k := by
    rw [hacts.mem_seen_iff (by simp), h.seen, isMet_append, isMet_settled]
    simp
  isNew d hd := by cases hd

namespace Traced

variable {α β : Type} {T : Traced α} {m : Step α} {due' : α → Option (Visit × Bool)}
  {P : Except Relation.WriteError α → List Event → Prop}

/-- A step keeps to what is known: from where one document is due to where another one is, unless the export
ends with it. -/
def Recognizes (ctx : Context) (due : Option (Visit × Bool)) (T : Traced α)
    (due' : α → Option (Visit × Bool)) : Prop :=
  ∀ s told, Knows ctx due s told → ∃ outcome t told',
    T.run.run (s, told) = (outcome, (t, told')) ∧ Recognized ctx told' ∧
      ∀ a, outcome = .ok a → Knows ctx (due' a) t told'

namespace Recognizes

theorem pure (a : α) : Recognizes ctx due (pure a) fun _ => due :=
  fun s told h => ⟨.ok a, s, told, rfl, h.recognized, fun _ _ => h⟩

theorem bind {F : α → Traced β} {due'' : β → Option (Visit × Bool)} (h : Recognizes ctx due T due')
    (hF : ∀ a, Recognizes ctx (due' a) (F a) due'') : Recognizes ctx due (T >>= F) due'' := by
  intro s told hs
  obtain ⟨outcome, t, told', hrun, hrecognized, hknows⟩ := h s told hs
  rw [run_bind, hrun]
  cases outcome with
  | error e => exact ⟨.error e, t, told', rfl, hrecognized, fun _ he => by cases he⟩
  | ok a => exact hF a t told' (hknows a rfl)

theorem mapM {F : StoredDocument → Traced β} (h : ∀ d, Recognizes ctx none (F d) fun _ => none)
    (ds : List StoredDocument) : Recognizes ctx none (ds.mapM F) fun _ => none := by
  induction ds with
  | nil => exact pure []
  | cons d rest ih =>
    rw [List.mapM_cons]
    apply (h d).bind
    intro b
    apply ih.bind
    exact fun bs => pure (b :: bs)

theorem forIn {F : StoredDocument → Traced β} (h : ∀ d, Recognizes ctx none (F d) fun _ => none)
    (ds : List StoredDocument) :
    Recognizes ctx none
      (forIn ds PUnit.unit fun d _ => do
        let _ ← F d
        Pure.pure (ForInStep.yield PUnit.unit)) fun _ => none := by
  induction ds with
  | nil => exact pure PUnit.unit
  | cons d rest ih =>
    rw [List.forIn_cons, bind_assoc]
    apply (h d).bind
    intro _
    rw [pure_bind]
    exact ih

end Recognizes

/-! Steps whose events are known. -/

theorem Tells.recognizes (h : Tells ctx T m P) (hP : ∀ r events, P r events → IsQuiet events) :
    Recognizes ctx due T fun _ => due := by
  intro s told hs
  obtain ⟨new, hrun, hacts, hp⟩ := h s told
  have hafter := hs.acts_quiet hacts (hP _ _ hp)
  exact ⟨_, _, _, hrun, hafter.recognized, fun _ _ => hafter⟩

theorem Tells.recognizes_of_eq {a : α} (h : Tells ctx T m fun r events => r = .ok a ∧ events = new)
    (hnew : IsQuiet new) : Recognizes ctx due T fun _ => due :=
  h.recognizes fun _ _ hevents => hevents.2 ▸ hnew

/-- A step settles what is due, or the export ends with it. -/
theorem Tells.settles (h : Tells ctx T m P) (hfate : fate = .repeated ↔ isNew = false)
    (hP : ∀ r events, P r events → events = [.settled v fate] ∨ r.isOk = false ∧ IsQuiet events) :
    Recognizes ctx (some (v, isNew)) T fun _ => none := by
  intro s told hs
  obtain ⟨new, hrun, hacts, hp⟩ := h s told
  rcases hP _ _ hp with rfl | ⟨hfailed, hquiet⟩
  · have hafter := hs.settled hacts hfate
    exact ⟨_, _, _, hrun, hafter.recognized, fun _ _ => hafter⟩
  · refine ⟨_, _, _, hrun, hs.recognized.append_unsettled hquiet.2, fun a ha => ?_⟩
    rw [ha] at hfailed
    cases hfailed

theorem recognizes_ask : Recognizes ctx due ask fun _ => due := by
  refine tells_ask.recognizes ?_
  rintro _ _ ⟨stop, -, rfl⟩
  simp [IsQuiet]

theorem recognizes_applyHook (relation : String) (record : Entries) :
    Recognizes ctx due (applyHook ctx relation record) fun _ => due :=
  (tells_applyHook relation record).recognizes fun _ _ h => isQuiet_of_isAddition h

theorem recognizes_offer (v : Visit) (record : Entries) :
    Recognizes ctx none (offer v record (documentKey ctx v.relation v.collectionPath v.document))
      fun isNew => some (v, isNew) := by
  intro s told hs
  rw [offer, run_bind, run_silently, Step.run_meet, ← Visit.mark]
  by_cases h : v.mark ctx ∈ s.result.seen
  · have hafter : Knows ctx (some (v, false)) s _ := hs.offered record (iff_of_true rfl h) fun k =>
      (or_iff_left_of_imp fun hk => hk ▸ h).symm
    rw [if_pos h]
    refine ⟨.ok false, s, _, rfl, hafter.recognized, ?_⟩
    rintro _ ⟨⟩
    exact hafter
  · have hafter : Knows ctx (some (v, true)) (s.met v.relation _) _ :=
      hs.offered record (iff_of_false Bool.noConfusion h) fun k => List.mem_cons.trans or_comm
    rw [if_neg h]
    refine ⟨.ok true, s.met v.relation _, _, rfl, hafter.recognized, ?_⟩
    rintro _ ⟨⟩
    exact hafter

/-- A document that is passed on is settled: as repeated, if it was met before. -/
theorem recognizes_writeRecord (hv : Relation.sanitize v.relation = v.relation) (record : Entries) :
    Recognizes ctx none (writeRecord ctx v record) fun _ => none := by
  have hsettle : ∀ {fate : Fate} {m : Step Unit} {isNew : Bool}, (fate = .repeated ↔ isNew = false) →
      (∀ s, ∃ t, Step.Runs m s () t ∧ Act ctx s (.settled v fate) t) →
      Recognizes ctx (some (v, isNew)) (do act (.settled v fate) m; return false) fun _ => none := by
    intro fate m isNew hfate hm
    exact ((tells_act hm).settles hfate fun _ _ h => .inl h.2).bind fun _ => .pure false
  unfold writeRecord
  apply (recognizes_offer v record).bind
  intro isNew
  cases isNew with
  | false => exact hsettle (by simp) fun s => ⟨_, rfl, .repeated v⟩
  | true =>
    apply (recognizes_applyHook v.relation record).bind
    intro outcome
    cases outcome with
    | fail message => exact hsettle (by simp) fun s => ⟨_, rfl, .refused v _ _⟩
    | drop => exact hsettle (by simp) fun s => ⟨_, rfl, .dropped v⟩
    | keep value =>
      have hstore : Recognizes ctx (some (v, true)) (store v value) fun _ => none := by
        have hwritten : Fate.written value = .repeated ↔ true = false := by simp
        refine (tells_store hv value).settles hwritten ?_
        rintro _ _ (⟨-, rfl⟩ | ⟨e, rfl, rfl⟩)
        · exact .inl rfl
        · exact .inr ⟨rfl, by simp [IsQuiet]⟩
      apply hstore.bind
      exact fun _ => .pure true

/-! Going through documents. -/

variable {n : Nat} {visit : Visit → Traced Entries}

theorem recognizes_walkCollections (h : ∀ name d, Recognizes ctx none (visit (v.child name d)) fun _ => none)
    (names : List String) : Recognizes ctx none (walkCollections ctx visit v names) fun _ => none := by
  induction names with
  | nil => exact .pure _
  | cons name rest ih =>
    have hfetch : Recognizes ctx none (act _ (noteFetch ctx v name)) fun _ => none :=
      (tells_noteFetch v name).recognizes_of_eq (by simp [IsQuiet])
    unfold walkCollections
    apply recognizes_ask.bind
    intro stop
    cases stop with
    | true => exact .pure _
    | false =>
      apply hfetch.bind
      intro _
      cases ctx.store.fetch (v.path ++ "/" ++ name) ctx.settings.subcollectionLimit 0 with
      | error message => exact ih
      | ok children =>
        apply (Recognizes.mapM (h name) children).bind
        intro records
        apply ih.bind
        exact fun nested => .pure _

theorem recognizes_walkDocument (h : ∀ name d, Recognizes ctx none (visit (v.child name d)) fun _ => none) :
    Recognizes ctx none (walkDocument ctx visit v) fun _ => none := by
  have hlisting : Recognizes ctx none (act _ (noteListing ctx v)) fun _ => none :=
    (tells_noteListing v).recognizes_of_eq (by simp [IsQuiet])
  unfold walkDocument
  apply hlisting.bind
  intro _
  cases ctx.store.nestedCollections v.path with
  | error message => exact .pure _
  | ok names =>
    apply (recognizes_walkCollections h names).bind
    exact fun nested => .pure _

theorem recognizes_exportDocument (n : Nat) (hv : Relation.sanitize v.relation = v.relation) :
    Recognizes ctx none (exportDocument ctx n v) fun _ => none := by
  induction n generalizing v with
  | zero =>
    unfold exportDocument
    dsimp only
    split
    · exact (recognizes_writeRecord hv v.record).bind fun _ => .pure _
    · exact .pure _
  | succ n ih =>
    have hwalk : Recognizes ctx none (walkDocument ctx (exportDocument ctx n) v) fun _ => none :=
      recognizes_walkDocument fun name d => ih (Steady.sanitize_nestedRelation v.relation name)
    unfold exportDocument
    dsimp only
    cases ctx.settings.mode with
    | nest =>
      apply hwalk.bind
      intro nested
      split
      · exact (recognizes_writeRecord hv _).bind fun _ => .pure _
      · exact .pure _
    | flatten =>
      apply (recognizes_writeRecord hv v.record).bind
      intro isWritten
      cases isWritten with
      | false => exact .pure _
      | true => exact hwalk.bind fun _ => .pure _

theorem recognizes_exportBatches (batches offset : Nat) :
    Recognizes ctx none (exportBatches ctx batches offset) fun _ => none := by
  induction batches generalizing offset with
  | zero => exact .pure _
  | succ batches ih =>
    have hpage : Recognizes ctx none (act _ (notePage ctx offset)) fun _ => none :=
      (tells_notePage offset).recognizes_of_eq (by simp [IsQuiet])
    unfold exportBatches
    apply recognizes_ask.bind
    intro stop
    cases stop with
    | true => exact .pure _
    | false =>
      show Recognizes ctx none (if pageSize ctx.settings offset = 0 then _ else _) _
      by_cases hsize : pageSize ctx.settings offset = 0
      · rw [if_pos hsize]
        exact .pure _
      · rw [if_neg hsize]
        apply hpage.bind
        intro _
        rcases ctx.store.fetch ctx.settings.collection (pageSize ctx.settings offset) offset with
          message | ⟨_ | ⟨d, rest⟩⟩
        · exact .pure _
        · exact .pure _
        · have hroot (d : StoredDocument) : Recognizes ctx none (exportDocument ctx (levels ctx.settings)
              (.root ctx.settings.collection d)) fun _ => none :=
            recognizes_exportDocument _ (Relation.sanitize_sanitize _)
          apply (Recognizes.forIn hroot (d :: rest)).bind
          exact fun _ => ih _

end Traced

/-- Of the documents that an export settles, those count as repeated that share their marks with one
before. -/
theorem Exporter.recognized_trace (e : Exporter) (settings : Settings) (period : Time.Period)
    (session : Session) :
    Recognized ⟨e.store, e.hooks, settings, period⟩ (e.trace settings period session) := by
  have hinitial : Knows ⟨e.store, e.hooks, settings, period⟩ none (.initial settings period session) [] := by
    refine ⟨fun before v fate after hsplit => ?_, fun k => ?_, fun _ h => by cases h⟩
    · simp at hsplit
    · have hnone : (State.initial settings period session).result.seen = [] := Result.seen_ensure ..
      rw [hnone]
      simp [IsMet]
  obtain ⟨outcome, t, told, hrun, hrecognized, -⟩ := Traced.recognizes_exportBatches
    ((e.store.documents settings.collection).length + 1) 0 _ [] hinitial
  have htrace : e.trace settings period session = told := by
    rw [trace, Traced.exportCollection, hrun]
  rwa [htrace]

/-! Places of documents. -/

/-- Where a document lies: under an id in a collection of the store, or in a collection nested in the document
at another place. -/
inductive Place where
  | root (collection id : String)
  | nested (place : Place) (name id : String)
  deriving DecidableEq, Repr

/-- The relation and the path of what lies at a place. -/
def Place.key : Place → String × String
  | root collection id => (Relation.sanitize collection, collection ++ "/" ++ id)
  | nested place name id => (nestedRelation place.key.1 name, place.key.2 ++ "/" ++ name ++ "/" ++ id)

def Place.depth : Place → Nat
  | root .. => 0
  | nested place .. => place.depth + 1

/-- A document of the store lies at a place below the exported collection. -/
inductive LiesAt (store : Store) (s : Settings) : Place → Visit → Prop where
  | root {d : StoredDocument} (hd : d ∈ store.documents s.collection) :
      LiesAt store s (.root s.collection d.id) (.root s.collection d)
  | child {place : Place} {v : Visit} {name : String} {d : StoredDocument}
      (hv : LiesAt store s place v) (hname : name ∈ v.nested store)
      (hd : d ∈ store.documents (v.path ++ "/" ++ name)) :
      LiesAt store s (.nested place name d.id) (v.child name d)

section places

variable {store : Store} {settings : Settings} {place place' : Place} {chain : List String}

theorem Chained.exists_liesAt (h : Chained store settings chain v) :
    ∃ place, LiesAt store settings place v := by
  induction h with
  | root hd => exact ⟨_, .root hd⟩
  | child _ hname hd ih =>
    obtain ⟨place, hv⟩ := ih
    exact ⟨_, .child hv hname hd⟩

theorem LiesAt.key_eq (h : LiesAt store settings place v) : v.key = place.key := by
  induction h with
  | root => rfl
  | child _ _ _ ih =>
    rw [Place.key, ← ih]
    rfl

theorem LiesAt.slashes_eq (hstore : store.PlainIds) (h : LiesAt store settings place v) :
    v.slashes = settings.collection.toList.count '/' + 1 + 2 * place.depth := by
  induction h with
  | @root d hd =>
    have hid := List.count_eq_zero.2 (hstore _ d hd)
    simp [Visit.slashes, Visit.path, Visit.root, Place.depth, hid]
  | child _ hname hd ih =>
    rw [Visit.slashes_child (Visit.slash_not_mem_of_mem_nested hname) (hstore _ _ hd), ih, Place.depth]
    omega

/-- Where no id has a slash, a path tells the place. -/
theorem LiesAt.eq_of_path_eq (hstore : store.PlainIds) (hv : LiesAt store settings place v)
    (hw : LiesAt store settings place' w) (h : v.path = w.path) : place = place' := by
  induction hv generalizing place' w with
  | @root d hd =>
    have hslashes := (LiesAt.root hd).slashes_eq hstore
    rw [Visit.slashes, h, ← Visit.slashes, hw.slashes_eq hstore] at hslashes
    cases hw with
    | @root d' hd' =>
      have hid : d.id = d'.id := by
        simpa [Visit.path, Visit.root] using h
      rw [hid]
    | child =>
      simp only [Place.depth] at hslashes
      omega
  | @child place v name d hv hname hd ih =>
    have hslashes := (LiesAt.child hv hname hd).slashes_eq hstore
    rw [Visit.slashes, h, ← Visit.slashes, hw.slashes_eq hstore] at hslashes
    cases hw with
    | root =>
      simp only [Place.depth] at hslashes
      omega
    | @child place' w name' d' hw hname' hd' =>
      have habove : v.slashes = w.slashes := by
        rw [hv.slashes_eq hstore, hw.slashes_eq hstore]
        simp only [Place.depth] at hslashes
        omega
      obtain ⟨hpath, rfl⟩ := Visit.path_child_inj habove (Visit.slash_not_mem_of_mem_nested hname)
        (Visit.slash_not_mem_of_mem_nested hname') h
      have h : v.path ++ "/" ++ name ++ "/" ++ d.id = w.path ++ "/" ++ name ++ "/" ++ d'.id := h
      have hid : d.id = d'.id := by
        simpa [hpath] using h
      rw [ih hw hpath, hid]

end places

/-- Documents that know their paths are recognized by them. -/
theorem Visit.mark_eq_key (h : ctx.store.pathless = false) (v : Visit) : v.mark ctx = v.key := by
  simp [mark, documentKey, h, key, path]

/-- The other ones are recognized by their ids. -/
theorem Visit.mark_eq_iff (h : ctx.store.pathless = true) :
    w.mark ctx = v.mark ctx ↔ w.relation = v.relation ∧ w.document.id = v.document.id := by
  simp only [mark, documentKey, h, if_true, Prod.mk.injEq]
  refine and_congr_right fun hrelation => ?_
  simp [hrelation]

/-- What an export counts as repeated. -/
structure SkipsRepeats (store : Store) (s : Settings) (trace : List Event) : Prop where
  /-- Of documents that know their paths, where ids have no slashes: one at a place where one was settled
  before. -/
  byPlace : store.pathless = false → store.PlainIds → ∀ before v fate after,
    trace = before ++ .settled v fate :: after → ∃ place, LiesAt store s place v ∧
      (fate = .repeated ↔ ∃ w fate', .settled w fate' ∈ before ∧ LiesAt store s place w)
  /-- Of those whose ids may have slashes: one of a relation and a path of which one was settled before. -/
  byPath : store.pathless = false → ∀ before v fate after, trace = before ++ .settled v fate :: after →
    (fate = .repeated ↔ ∃ w fate', .settled w fate' ∈ before ∧ w.key = v.key)
  /-- Of documents that do not: one of a relation and an id of which one was settled before. -/
  byId : store.pathless = true → ∀ before v fate after, trace = before ++ .settled v fate :: after →
    (fate = .repeated ↔ ∃ w fate', .settled w fate' ∈ before ∧ w.relation = v.relation ∧
      w.document.id = v.document.id)

/-- What is counted as repeated, whatever the bounds, the mode, the hooks, the failures and the time of a
cancellation are. -/
theorem export_skips_repeats {e : Exporter} {order : Order} {settings : Settings} (period : Time.Period)
    (session : Session) (ho : order.settings = .ok settings) :
    e.IsTold order settings period session ∧
      SkipsRepeats e.store settings (e.trace settings period session) ∧
      ∀ result, (e.export order period session).result = .ok result →
        result.duplicatesSkipped = numberOf (· matches .repeated) (e.trace settings period session) := by
  let ctx : Context := ⟨e.store, e.hooks, settings, period⟩
  have hrecognized : Recognized ctx _ := e.recognized_trace settings period session
  have hpath (hpaths : e.store.pathless = false) : ∀ before v fate after,
      e.trace settings period session = before ++ .settled v fate :: after →
      (fate = .repeated ↔ ∃ w fate', .settled w fate' ∈ before ∧ w.key = v.key) := by
    intro before v fate after hsplit
    have hmark (w : Visit) : w.mark ctx = w.key := Visit.mark_eq_key hpaths w
    rw [hrecognized before v fate after hsplit]
    simp only [IsMet, hmark]
  refine ⟨Exporter.isTold ho period session, ⟨fun hpaths hids before v fate after hsplit => ?_, hpath,
    fun hpathless before v fate after hsplit => ?_⟩, fun result hresult => ?_⟩
  · have hlies {w : Visit} {fate' : Fate} (hw : .settled w fate' ∈ before ++ .settled v fate :: after) :
        ∃ place, LiesAt e.store settings place w := by
      rw [← hsplit] at hw
      obtain ⟨chain, hchain⟩ := Exporter.exists_chained hw
      exact hchain.exists_liesAt
    obtain ⟨place, hv⟩ := hlies (List.mem_append_right _ List.mem_cons_self)
    refine ⟨place, hv, (hpath hpaths before v fate after hsplit).trans ⟨?_, ?_⟩⟩
    · rintro ⟨w, fate', hw, hkey⟩
      obtain ⟨place', hw'⟩ := hlies (List.mem_append_left _ hw)
      obtain rfl := hw'.eq_of_path_eq hids hv (Prod.mk.inj hkey).2
      exact ⟨w, fate', hw, hw'⟩
    · rintro ⟨w, fate', hw, hw'⟩
      exact ⟨w, fate', hw, hw'.key_eq.trans hv.key_eq.symm⟩
  · have hmark (w : Visit) : w.mark ctx = v.mark ctx ↔ w.relation = v.relation ∧
        w.document.id = v.document.id := Visit.mark_eq_iff hpathless
    rw [hrecognized before v fate after hsplit]
    simp only [IsMet, hmark]
  · obtain ⟨hcounted, -⟩ := Exporter.settles_trace ho hresult
    obtain ⟨-, -, hduplicates, -⟩ := State.initial_counts settings period session
    obtain ⟨writer, -, hend⟩ := Exporter.exists_finalize_of_isClosed ho (Outcome.isClosed_of_ok hresult)
    have hskipped := hcounted.duplicates
    rw [hduplicates, Int.zero_add] at hskipped
    rw [show result = _ from hend result hresult]
    exact hskipped

/-! Two documents of one id in a collection, and two of one id in different collections. -/

namespace Repeats

def period : Time.Period := ⟨⟨⟨2024, 5, 1⟩, {}, some 0⟩, ⟨⟨2024, 5, 1⟩, {}, some 0⟩⟩

def session : Session := ⟨⟨⟨false, ["out"]⟩, some 2, [], false⟩, .empty, .never⟩

def order (collection : String) : Order := { collection, batchSize := 50, includeSubcollections := true }

def settings (collection : String) : Settings := ⟨collection, 50, 0, true, 3, 100, .flatten, by decide⟩

/-- The documents that are settled in an export of a collection, and whether they count as repeated. -/
def settledPaths (store : Store) (collection : String) : List (String × Bool) :=
  (settlements ((Exporter.mk store []).trace (settings collection) period session)).map fun o =>
    (o.placed.1 ++ "/" ++ o.placed.2.id, o.fate matches .repeated)

def skipped (store : Store) (collection : String) : Option Int :=
  ((Exporter.mk store []).export (order collection) period session).result.toOption.map
    Result.duplicatesSkipped

theorem skipped_withRepeat :
    (settledPaths .withRepeat "users", skipped .withRepeat "users") =
        ([("users/ada", false), ("users/ada/orders/first", false), ("users/ada", true),
          ("users/bob", false), ("users/cyd", false)], some 1) ∧
      (Exporter.mk .withRepeat []).IsTold (order "users") (settings "users") period session ∧
      SkipsRepeats .withRepeat (settings "users")
        ((Exporter.mk .withRepeat []).trace (settings "users") period session) := by
  have hcounts : (settledPaths .withRepeat "users", skipped .withRepeat "users") =
      ([("users/ada", false), ("users/ada/orders/first", false), ("users/ada", true),
        ("users/bob", false), ("users/cyd", false)], some 1) := by
    decide +kernel
  obtain ⟨htold, hskips, -⟩ := @export_skips_repeats ⟨.withRepeat, []⟩ (order "users")
    (settings "users") period session rfl
  exact ⟨hcounts, htold, hskips⟩

/-- Where documents do not know their paths, the second of two of one id counts as repeated, though they are
nested in different documents. -/
theorem skipped_withEqualOrders : settledPaths (.withEqualOrders true) "u" =
      [("u/a", false), ("u/a/o/1", false), ("u/b", false), ("u/b/o/1", true)] ∧
    skipped (.withEqualOrders true) "u" = some 1 := by
  decide +kernel

end Repeats

end BackendMigration.Export
