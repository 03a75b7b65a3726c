import BackendMigration.Proofs.Export.Enumeration
import BackendMigration.Proofs.Export.Telling

/-! What has come before each event of an export. -/
namespace BackendMigration.Export

open Traced (pageSize)

/-- A document is met through collections of these names, the exported one first. -/
inductive Chained (store : Store) (s : Settings) : List String → Visit → Prop where
  | root {d : StoredDocument} (hd : d ∈ store.documents s.collection) :
      Chained store s [s.collection] (.root s.collection d)
  | child {chain : List String} {v : Visit} {name : String} {d : StoredDocument}
      (hv : Chained store s chain v) (hname : name ∈ v.nested store)
      (hd : d ∈ store.documents (v.path ++ "/" ++ name)) :
      Chained store s (chain ++ [name]) (v.child name d)

namespace Chained

variable {store : Store} {s : Settings} {chain : List String} {v : Visit}

theorem ne_nil (h : Chained store s chain v) : chain ≠ [] := by
  cases h <;> simp

/-- A document lies as many collections below the exported one as its depth tells. -/
theorem length_eq (h : Chained store s chain v) : chain.length = v.depth + 1 := by
  induction h with
  | root => rfl
  | child _ _ _ ih => rw [List.length_append, ih]; rfl

theorem sanitize_append (s t : String) :
    Relation.sanitize (s ++ t) = Relation.sanitize s ++ Relation.sanitize t := by
  simp [Relation.sanitize]

/-- The relation of a document joins the names of the collections it is met through. -/
theorem relation_eq (h : Chained store s chain v) :
    v.relation = Relation.sanitize ("_".intercalate chain) := by
  induction h with
  | root => rfl
  | @child chain v name d hv _ _ ih =>
    have hrelation : (v.child name d).relation = Relation.sanitize (v.relation ++ "_" ++ name) := rfl
    rw [hrelation, String.intercalate_append_of_ne_nil hv.ne_nil (List.cons_ne_nil _ _),
      String.intercalate_singleton, ih]
    simp only [sanitize_append, Relation.sanitize_sanitize]

end Chained

/-- The number of documents of the exported collection that an event fetches. -/
def Event.answered (store : Store) : Event → Nat
  | fetched none path limit offset =>
    ((store.fetch path limit offset).toOption.map List.length).getD 0
  | _ => 0

def answered (store : Store) : List Event → Nat
  | [] => 0
  | event :: rest => event.answered store + answered store rest

variable {ctx : Context} {before events events' : List Event} {event : Event} {v : Visit}

/-- A document was written just before. -/
def IsLastWritten (before : List Event) (v : Visit) : Prop :=
  ∃ value, before.getLast? = some (.settled v (.written value))

/-- A document was listed, and since then its collections of some names were not fetched. -/
def Listed (ctx : Context) (before : List Event) (v : Visit) (names : List String) : Prop :=
  ∃ earlier since, before = earlier ++ .listed v :: since ∧
    (ctx.settings.mode = .flatten → IsLastWritten earlier v) ∧
    ∀ name ∈ names, ∀ above limit offset, .fetched above (v.path ++ "/" ++ name) limit offset ∉ since

/-- A document is one of those that a fetch answered with. -/
inductive Reached (ctx : Context) (before : List Event) : Visit → Prop where
  | root {limit offset : Nat} {batch : List StoredDocument} {d : StoredDocument}
      (h : .fetched none ctx.settings.collection limit offset ∈ before)
      (hfetch : ctx.store.fetch ctx.settings.collection limit offset = .ok batch) (hd : d ∈ batch) :
      Reached ctx before (.root ctx.settings.collection d)
  | child {p : Visit} {name : String} {children : List StoredDocument} {d : StoredDocument}
      {earlier since : List Event} (hname : name ∈ p.nested ctx.store)
      (h : before = earlier ++
        .fetched (some p) (p.path ++ "/" ++ name) ctx.settings.subcollectionLimit 0 :: since)
      (hlisted : Listed ctx earlier p [name])
      (hfetch : ctx.store.fetch (p.path ++ "/" ++ name) ctx.settings.subcollectionLimit 0 =
        .ok children) (hd : d ∈ children) : Reached ctx before (p.child name d)

/-- What has come before an event. -/
inductive Follows (ctx : Context) (before : List Event) : Event → Prop where
  | asked (stop : Bool) : Follows ctx before (.asked stop)
  /-- A batch has the documents after those fetched before. -/
  | page {offset : Nat} (hasked : before.getLast? = some (.asked false))
      (hsize : pageSize ctx.settings offset ≠ 0) (h : offset = answered ctx.store before) :
      Follows ctx before
        (.fetched none ctx.settings.collection (pageSize ctx.settings offset) offset)
  | fetched {v : Visit} {name : String} (hasked : before.getLast? = some (.asked false))
      (hname : name ∈ v.nested ctx.store) (h : Listed ctx before v [name]) :
      Follows ctx before
        (.fetched (some v) (v.path ++ "/" ++ name) ctx.settings.subcollectionLimit 0)
  | listed {v : Visit} {chain : List String} (hv : Chained ctx.store ctx.settings chain v)
      (hdepth : v.depth < levels ctx.settings)
      (hwritten : ctx.settings.mode = .flatten → IsLastWritten before v) :
      Follows ctx before (.listed v)
  | offered {v : Visit} {record : Document.Entries} {chain : List String}
      (hv : Chained ctx.store ctx.settings chain v) (h : Reached ctx before v)
      (hrecord : ctx.settings.mode = .flatten → record = v.record) :
      Follows ctx before (.offered v record)
  | addition {event : Event} (h : event.isAddition = true) : Follows ctx before event
  | settled {v : Visit} {record : Document.Entries} {earlier added : List Event} (fate : Fate)
      (h : before = earlier ++ .offered v record :: added)
      (hadded : ∀ event ∈ added, event.isAddition = true) : Follows ctx before (.settled v fate)

/-- Each of some events follows those before it. -/
def Ordered (ctx : Context) : (before events : List Event) → Prop
  | _, [] => True
  | before, event :: rest => Follows ctx before event ∧ Ordered ctx (before ++ [event]) rest

theorem Ordered.append (h : Ordered ctx before events) (h' : Ordered ctx (before ++ events) events') :
    Ordered ctx before (events ++ events') := by
  induction events generalizing before with
  | nil => rwa [List.append_nil] at h'
  | cons event rest ih =>
    refine ⟨h.1, ih h.2 ?_⟩
    rwa [List.append_assoc]

theorem Ordered.follows (h : Ordered ctx before events) {earlier later : List Event}
    (hsplit : events = earlier ++ event :: later) : Follows ctx (before ++ earlier) event := by
  induction earlier generalizing before events with
  | nil =>
    rw [hsplit] at h
    rw [List.append_nil]
    exact h.1
  | cons e rest ih =>
    rw [hsplit] at h
    have hrest := ih h.2 rfl
    rwa [List.append_assoc] at hrest

theorem Ordered.asked (h : Follows ctx (before ++ [.asked false]) event)
    (hrest : Ordered ctx (before ++ [.asked false, event]) events) :
    Ordered ctx before (.asked false :: event :: events) := by
  refine ⟨.asked false, h, ?_⟩
  rwa [List.append_assoc]

theorem Ordered.of_isAddition (h : ∀ event ∈ events, event.isAddition = true) :
    Ordered ctx before events := by
  induction events generalizing before with
  | nil => trivial
  | cons event rest ih =>
    exact ⟨.addition (h event List.mem_cons_self), ih fun e he => h e (List.mem_cons_of_mem _ he)⟩

/-! What stays so when more events come. -/

theorem Listed.append {names : List String} (h : Listed ctx before v names)
    (hmore : ∀ name ∈ names, ∀ above limit offset,
      .fetched above (v.path ++ "/" ++ name) limit offset ∉ events) :
    Listed ctx (before ++ events) v names := by
  obtain ⟨earlier, since, rfl, hwritten, hsince⟩ := h
  refine ⟨earlier, since ++ events, by simp, hwritten, fun name hname above limit offset hmem => ?_⟩
  rcases List.mem_append.1 hmem with hmem | hmem
  · exact hsince name hname above limit offset hmem
  · exact hmore name hname above limit offset hmem

theorem Listed.mono {names names' : List String} (h : Listed ctx before v names)
    (hnames : ∀ name ∈ names', name ∈ names) : Listed ctx before v names' := by
  obtain ⟨earlier, since, hbefore, hwritten, hsince⟩ := h
  exact ⟨earlier, since, hbefore, hwritten, fun name hname => hsince name (hnames name hname)⟩

theorem Reached.append (h : Reached ctx before v) (events : List Event) :
    Reached ctx (before ++ events) v := by
  cases h with
  | root h hfetch hd => exact .root (List.mem_append_left events h) hfetch hd
  | @child p name children d earlier since hname h hlisted hfetch hd =>
    have hbefore : before ++ events = earlier ++
        .fetched (some p) (p.path ++ "/" ++ name) ctx.settings.subcollectionLimit 0 ::
          (since ++ events) := by simp [h]
    exact .child hname hbefore hlisted hfetch hd

theorem answered_append (store : Store) (events events' : List Event) :
    answered store (events ++ events') = answered store events + answered store events' := by
  induction events with
  | nil => exact (Nat.zero_add _).symm
  | cons event rest ih => rw [List.cons_append, answered, answered, ih, Nat.add_assoc]

theorem answered_of_fetchesBelow {base : String} (h : FetchesBelow base events) (store : Store) :
    answered store events = 0 := by
  induction events with
  | nil => rfl
  | cons event rest ih =>
    have hevent : event.answered store = 0 := by
      cases event with
      | fetched above path limit offset =>
        cases above with
        | none => exact absurd rfl (h _ List.mem_cons_self _ _ _ _ rfl).1
        | some v => rfl
      | _ => rfl
    rw [answered, hevent, ih fun e he => h e (List.mem_cons_of_mem event he)]

/-! Each part of an export, when it begins. -/

/-- A document is about to be exported through at most some levels. -/
structure Arrived (ctx : Context) (before : List Event) (n : Nat) (v : Visit) : Prop where
  reached : Reached ctx before v
  chained : ∃ chain, Chained ctx.store ctx.settings chain v
  depth : v.depth + n ≤ levels ctx.settings

/-- What has come before a part of an export. -/
def Part.Ready (ctx : Context) (before : List Event) : Part → Prop
  | document n v => Arrived ctx before n v
  | documents n vs => ∀ v ∈ vs, Arrived ctx before n v
  | walk n v => (∃ chain, Chained ctx.store ctx.settings chain v) ∧
    v.depth + n < levels ctx.settings ∧ (ctx.settings.mode = .flatten → IsLastWritten before v)
  | collections n v names => (∃ chain, Chained ctx.store ctx.settings chain v) ∧
    v.depth + n < levels ctx.settings ∧ names.Nodup ∧ (∀ name ∈ names, name ∈ v.nested ctx.store) ∧
    Listed ctx before v names
  | batches _ offset => offset = answered ctx.store before

theorem Arrived.append {n : Nat} (h : Arrived ctx before n v) (events : List Event) :
    Arrived ctx (before ++ events) n v :=
  ⟨h.reached.append events, h.chained, h.depth⟩

theorem Store.names_eq {store : Store} {v : Visit} {names : List String}
    (h : store.nestedCollections v.path = .ok names) : names = v.nested store := by
  unfold nestedCollections at h
  split at h
  · cases h
  · exact (Except.ok.inj h).symm

/-- No other collection nested in the same document lies below a nested collection. -/
theorem not_mem_of_fetchesBelow {name other : String} (hother : '/' ∉ other.toList)
    (h : FetchesBelow (v.path ++ "/" ++ name ++ "/") events)
    (above : Option Visit) (limit offset : Nat) :
    .fetched above (v.path ++ "/" ++ other) limit offset ∉ events := by
  intro hmem
  have hprefix := (h _ hmem _ _ _ _ rfl).2
  simp only [String.toList_append, List.append_assoc, List.prefix_append_right_inj] at hprefix
  obtain ⟨rest, hrest⟩ := hprefix
  refine hother ?_
  rw [← hrest]
  simp

theorem ordered_offering {record : Document.Entries} {fate : Option Fate} {chain : List String}
    (hv : Chained ctx.store ctx.settings chain v) (hreached : Reached ctx before v)
    (hrecord : ctx.settings.mode = .flatten → record = v.record)
    (h : Offering v record fate events) : Ordered ctx before events := by
  obtain ⟨added, hadded, rfl⟩ := h
  refine ⟨.offered hv hreached hrecord, (Ordered.of_isAddition hadded).append ?_⟩
  cases fate with
  | none => trivial
  | some fate => exact ⟨.settled fate (List.append_assoc ..) hadded, trivial⟩

theorem isLastWritten_offering {record : Document.Entries} {value : Document.Value}
    (h : Offering v record (some (.written value)) events) :
    IsLastWritten (before ++ events) v := by
  obtain ⟨added, -, rfl⟩ := h
  refine ⟨value, ?_⟩
  rw [← List.cons_append, ← List.append_assoc]
  exact List.getLast?_concat

theorem Listed.opened {name : String} {rest : List String}
    (h : Listed ctx before v (name :: rest)) (hnodup : (name :: rest).Nodup) (limit offset : Nat) :
    Listed ctx (before ++ [.asked false, .fetched (some v) (v.path ++ "/" ++ name) limit offset]) v rest := by
  refine (h.mono fun other hother => List.mem_cons_of_mem name hother).append ?_
  intro other hother above limit' offset' hmem
  have hne : other ≠ name := fun heq => (List.nodup_cons.1 hnodup).1 (heq ▸ hother)
  simp only [List.mem_cons, List.not_mem_nil, or_false, reduceCtorEq, false_or,
    Event.fetched.injEq] at hmem
  exact hne (by simpa using hmem.2.1)

namespace Part.Ready

variable {n : Nat} {name : String} {rest : List String}

/-- A nested collection is about to be fetched. -/
theorem follows_fetched (h : Ready ctx before (.collections n v (name :: rest))) :
    Follows ctx (before ++ [.asked false])
      (.fetched (some v) (v.path ++ "/" ++ name) ctx.settings.subcollectionLimit 0) := by
  obtain ⟨-, -, -, hnames, hlisted⟩ := h
  have hname : ∀ other ∈ [name], other ∈ name :: rest := by simp
  exact .fetched List.getLast?_concat (hnames name List.mem_cons_self)
    ((hlisted.mono hname).append (by simp))

theorem children (h : Ready ctx before (.collections n v (name :: rest)))
    {children : List StoredDocument}
    (hfetch : ctx.store.fetch (v.path ++ "/" ++ name) ctx.settings.subcollectionLimit 0 = .ok children) :
    Ready ctx (before ++ [.asked false,
        .fetched (some v) (v.path ++ "/" ++ name) ctx.settings.subcollectionLimit 0])
      (.documents n (children.map (v.child name))) := by
  obtain ⟨⟨chain, hv⟩, hdepth, -, hnames, hlisted⟩ := h
  have hname : name ∈ v.nested ctx.store := hnames name List.mem_cons_self
  have hsub : ∀ other ∈ [name], other ∈ name :: rest := by simp
  have hasked : Listed ctx (before ++ [.asked false]) v [name] :=
    (hlisted.mono hsub).append (by simp)
  intro w hw
  obtain ⟨d, hd, rfl⟩ := List.mem_map.1 hw
  refine ⟨.child hname (List.append_assoc before [.asked false] _).symm hasked hfetch hd,
    ⟨_, .child hv hname (Steady.mem_of_fetch hfetch hd)⟩, ?_⟩
  change v.depth + 1 + n ≤ _
  omega

theorem others (h : Ready ctx before (.collections n v (name :: rest)))
    (hevents : FetchesBelow (v.path ++ "/" ++ name ++ "/") events) :
    Ready ctx (before ++ [.asked false,
        .fetched (some v) (v.path ++ "/" ++ name) ctx.settings.subcollectionLimit 0] ++ events)
      (.collections n v rest) := by
  obtain ⟨hv, hdepth, hnodup, hnames, hlisted⟩ := h
  have hrest : ∀ other ∈ rest, other ∈ v.nested ctx.store :=
    fun other hother => hnames other (List.mem_cons_of_mem name hother)
  refine ⟨hv, hdepth, (List.nodup_cons.1 hnodup).2, hrest, (hlisted.opened hnodup _ _).append ?_⟩
  intro other hother above limit offset
  have hother := Visit.slash_not_mem_of_mem_nested (hrest other hother)
  exact not_mem_of_fetchesBelow hother hevents above limit offset

/-- A batch is about to be fetched. -/
theorem follows_page {count offset : Nat} (h : Ready ctx before (.batches count offset))
    (hsize : pageSize ctx.settings offset ≠ 0) : Follows ctx (before ++ [.asked false])
      (.fetched none ctx.settings.collection (pageSize ctx.settings offset) offset) := by
  refine .page List.getLast?_concat hsize ?_
  rw [answered_append, ← show offset = answered ctx.store before from h]
  rfl

theorem page {offset : Nat} {batch : List StoredDocument}
    (hfetch : ctx.store.fetch ctx.settings.collection (pageSize ctx.settings offset) offset = .ok batch) :
    Ready ctx (before ++ [.asked false,
        .fetched none ctx.settings.collection (pageSize ctx.settings offset) offset])
      (.documents (levels ctx.settings) (batch.map (Visit.root ctx.settings.collection))) := by
  intro w hw
  obtain ⟨d, hd, rfl⟩ := List.mem_map.1 hw
  refine ⟨.root (by simp) hfetch hd, ⟨_, .root (Steady.mem_of_fetch hfetch hd)⟩, ?_⟩
  change 0 + levels ctx.settings ≤ _
  omega

theorem batches {count offset : Nat} (h : Ready ctx before (.batches (count + 1) offset))
    {batch : List StoredDocument}
    (hfetch : ctx.store.fetch ctx.settings.collection (pageSize ctx.settings offset) offset = .ok batch)
    {base : String} (hevents : FetchesBelow base events) :
    Ready ctx (before ++ [.asked false,
        .fetched none ctx.settings.collection (pageSize ctx.settings offset) offset] ++ events)
      (.batches count (offset + batch.length)) := by
  change _ = _
  rw [answered_append, answered_append, ← show offset = answered ctx.store before from h,
    answered_of_fetchesBelow hevents]
  simp [answered, Event.answered, hfetch, Except.toOption]

end Part.Ready

theorem fetchesBelow_children {n : Nat} {name : String} {children : List StoredDocument}
    {complete : Bool} (h : Shape ctx (.documents n (children.map (v.child name))) complete events) :
    FetchesBelow (v.path ++ "/" ++ name ++ "/") events :=
  (Scope.below _).forall_mem h (List.forall_mem_map.2 fun d _ => v.prefix_child name d)

theorem fetchesBelow_page {n : Nat} {vs : List Visit} {complete : Bool}
    (h : Shape ctx (.documents n vs) complete events) : FetchesBelow "" events :=
  (Scope.below "").forall_mem h fun _ _ => List.nil_prefix

/-- Each event of a part of an export follows those before it. -/
theorem Shape.ordered {part : Part} {complete : Bool} (h : Shape ctx part complete events)
    (hready : part.Ready ctx before) : Ordered ctx before events := by
  induction h generalizing before with
  | unwritten => trivial
  | written _ hoffering =>
    obtain ⟨chain, hv⟩ := hready.chained
    exact ordered_offering hv hready.reached (fun _ => rfl) hoffering
  | unfinished _ _ hoffering =>
    obtain ⟨chain, hv⟩ := hready.chained
    exact ordered_offering hv hready.reached (fun _ => rfl) hoffering
  | finished _ hoffering _ ih =>
    obtain ⟨chain, hv⟩ := hready.chained
    have hdepth := hready.depth
    refine (ordered_offering hv hready.reached (fun _ => rfl) hoffering).append (ih ?_)
    exact ⟨⟨chain, hv⟩, by omega, fun _ => isLastWritten_offering hoffering⟩
  | embedded hmode _ _ ih =>
    have hdepth := hready.depth
    refine ih ⟨hready.chained, by omega, fun hflatten => ?_⟩
    rw [hmode] at hflatten
    cases hflatten
  | @embedding n v record fate walk events hmode _ _ hoffering ih =>
    have hdepth := hready.depth
    obtain ⟨chain, hv⟩ := hready.chained
    have hflatten : ctx.settings.mode ≠ .flatten := by rw [hmode]; decide
    refine (ih ⟨hready.chained, by omega, fun h => absurd h hflatten⟩).append ?_
    exact ordered_offering hv (hready.reached.append walk) (fun h => absurd h hflatten) hoffering
  | none => trivial
  | cut _ ih => exact ih (hready _ List.mem_cons_self)
  | next _ _ ih ih' =>
    refine (ih (hready _ List.mem_cons_self)).append (ih' fun v hv => ?_)
    exact (hready v (List.mem_cons_of_mem _ hv)).append _
  | unlisted =>
    obtain ⟨⟨chain, hv⟩, hdepth, hwritten⟩ := hready
    exact ⟨.listed hv (by omega) hwritten, trivial⟩
  | listed hnames _ ih =>
    obtain ⟨⟨chain, hv⟩, hdepth, hwritten⟩ := hready
    refine ⟨.listed hv (by omega) hwritten, ih ⟨⟨chain, hv⟩, hdepth, ?_, ?_, ?_⟩⟩
    · exact Store.nodup_nestedCollections hnames
    · exact fun name hname => Store.names_eq hnames ▸ hname
    · exact ⟨before, [], rfl, hwritten, fun _ _ _ _ _ h => absurd h List.not_mem_nil⟩
  | done => trivial
  | stopped => exact ⟨.asked true, trivial⟩
  | unfetched _ ih =>
    refine .asked hready.follows_fetched (ih ?_)
    have hothers := hready.others (.nil _)
    rwa [List.append_nil] at hothers
  | interrupted hfetch _ ih => exact .asked hready.follows_fetched (ih (hready.children hfetch))
  | fetched hfetch hnested _ ih ih' =>
    refine .asked hready.follows_fetched ((ih (hready.children hfetch)).append (ih' ?_))
    exact hready.others (fetchesBelow_children hnested)
  | spent => trivial
  | cancelled => exact ⟨.asked true, trivial⟩
  | full => exact ⟨.asked false, trivial⟩
  | last hsize => exact .asked (hready.follows_page hsize) trivial
  | broken hsize hfetch _ ih => exact .asked (hready.follows_page hsize) (ih (.page hfetch))
  | batch hsize hfetch hpage _ ih ih' =>
    refine .asked (hready.follows_page hsize) ((ih (.page hfetch)).append (ih' ?_))
    exact hready.batches hfetch (fetchesBelow_page hpage)

variable (e : Exporter) (settings : Settings) (period : Time.Period) (session : Session)

/-- What has come before an event of an export. -/
theorem Exporter.follows_trace {earlier later : List Event}
    (h : e.trace settings period session = earlier ++ event :: later) :
    Follows ⟨e.store, e.hooks, settings, period⟩ earlier event := by
  obtain ⟨-, -, complete, hshape⟩ := e.run_traced settings period session
  have hordered : Ordered ⟨e.store, e.hooks, settings, period⟩ [] (e.trace settings period session) :=
    hshape.ordered rfl
  exact hordered.follows h

end BackendMigration.Export
