import BackendMigration.Proofs.Export.Steady
import BackendMigration.Proofs.Export.Trace

/-! In which order the events of an export come: those of a document and of what is nested in it follow
each other. -/
namespace BackendMigration.Export

open Sustained (IsWritten)

/-- The records that a hook adds, and one that it fails to add. -/
def Event.isAddition : Event → Bool
  | emitted .. | rejected .. => true
  | _ => false

/-- The events of a record that is passed on, up to what becomes of it if the export goes on. -/
def Offering (v : Visit) (record : Document.Entries) (fate : Option Fate) (events : List Event) :
    Prop :=
  ∃ added : List Event, (∀ event ∈ added, event.isAddition = true) ∧
    events = .offered v record :: (added ++ (fate.map (Event.settled v)).toList)

/-- A part of an export. -/
inductive Part where
  /-- A document and what is nested in it, through at most some levels. -/
  | document (levels : Nat) (v : Visit)
  | documents (levels : Nat) (vs : List Visit)
  /-- What is nested in a document. -/
  | walk (levels : Nat) (v : Visit)
  /-- The collections of some names that are nested in a document. -/
  | collections (levels : Nat) (v : Visit) (names : List String)
  | batches (count offset : Nat)

/-- A part of an export has some events, and comes to its end or not. -/
inductive Shape (ctx : Context) : Part → Bool → List Event → Prop where
  | unwritten {v : Visit} (h : ¬IsWritten ctx v) : Shape ctx (.document 0 v) true []
  | written {v : Visit} {fate : Option Fate} {events : List Event} (h : IsWritten ctx v)
      (offering : Offering v v.record fate events) :
      Shape ctx (.document 0 v) fate.isSome events
  /-- Only below a document that is written the walk goes on. -/
  | unfinished {levels : Nat} {v : Visit} {fate : Option Fate} {events : List Event}
      (hmode : ctx.settings.mode = .flatten) (h : ∀ value, fate ≠ some (.written value))
      (offering : Offering v v.record fate events) :
      Shape ctx (.document (levels + 1) v) fate.isSome events
  | finished {levels : Nat} {v : Visit} {value : Document.Value} {events walk : List Event}
      {complete : Bool} (hmode : ctx.settings.mode = .flatten)
      (offering : Offering v v.record (some (.written value)) events)
      (nested : Shape ctx (.walk levels v) complete walk) :
      Shape ctx (.document (levels + 1) v) complete (events ++ walk)
  | embedded {levels : Nat} {v : Visit} {walk : List Event} {complete : Bool}
      (hmode : ctx.settings.mode = .nest) (h : v.depth = 0 → complete = false)
      (nested : Shape ctx (.walk levels v) complete walk) :
      Shape ctx (.document (levels + 1) v) complete walk
  | embedding {levels : Nat} {v : Visit} {record : Document.Entries} {fate : Option Fate}
      {walk events : List Event} (hmode : ctx.settings.mode = .nest) (h : v.depth = 0)
      (nested : Shape ctx (.walk levels v) true walk) (offering : Offering v record fate events) :
      Shape ctx (.document (levels + 1) v) fate.isSome (walk ++ events)
  | none (levels : Nat) : Shape ctx (.documents levels []) true []
  | cut {levels : Nat} {v : Visit} {rest : List Visit} {events : List Event}
      (first : Shape ctx (.document levels v) false events) :
      Shape ctx (.documents levels (v :: rest)) false events
  | next {levels : Nat} {v : Visit} {rest : List Visit} {events events' : List Event}
      {complete : Bool} (first : Shape ctx (.document levels v) true events)
      (others : Shape ctx (.documents levels rest) complete events') :
      Shape ctx (.documents levels (v :: rest)) complete (events ++ events')
  | unlisted {levels : Nat} {v : Visit} : Shape ctx (.walk levels v) true [.listed v]
  | listed {levels : Nat} {v : Visit} {names : List String} {events : List Event} {complete : Bool}
      (h : ctx.store.nestedCollections v.path = .ok names)
      (nested : Shape ctx (.collections levels v names) complete events) :
      Shape ctx (.walk levels v) complete (.listed v :: events)
  | done (levels : Nat) (v : Visit) : Shape ctx (.collections levels v []) true []
  | stopped {levels : Nat} {v : Visit} {names : List String} :
      Shape ctx (.collections levels v names) true [.asked true]
  | unfetched {levels : Nat} {v : Visit} {name : String} {rest : List String} {events : List Event}
      {complete : Bool} (others : Shape ctx (.collections levels v rest) complete events) :
      Shape ctx (.collections levels v (name :: rest)) complete
        (.asked false :: .fetched (some v) (v.path ++ "/" ++ name) ctx.settings.subcollectionLimit 0 ::
          events)
  | interrupted {levels : Nat} {v : Visit} {name : String} {rest : List String}
      {children : List StoredDocument} {events : List Event}
      (h : ctx.store.fetch (v.path ++ "/" ++ name) ctx.settings.subcollectionLimit 0 = .ok children)
      (nested : Shape ctx (.documents levels (children.map (v.child name))) false events) :
      Shape ctx (.collections levels v (name :: rest)) false
        (.asked false :: .fetched (some v) (v.path ++ "/" ++ name) ctx.settings.subcollectionLimit 0 ::
          events)
  | fetched {levels : Nat} {v : Visit} {name : String} {rest : List String}
      {children : List StoredDocument} {events events' : List Event} {complete : Bool}
      (h : ctx.store.fetch (v.path ++ "/" ++ name) ctx.settings.subcollectionLimit 0 = .ok children)
      (nested : Shape ctx (.documents levels (children.map (v.child name))) true events)
      (others : Shape ctx (.collections levels v rest) complete events') :
      Shape ctx (.collections levels v (name :: rest)) complete
        (.asked false :: .fetched (some v) (v.path ++ "/" ++ name) ctx.settings.subcollectionLimit 0 ::
          (events ++ events'))
  | spent (offset : Nat) : Shape ctx (.batches 0 offset) true []
  | cancelled {count offset : Nat} : Shape ctx (.batches count offset) true [.asked true]
  | full {count offset : Nat} (h : Traced.pageSize ctx.settings offset = 0) :
      Shape ctx (.batches count offset) true [.asked false]
  | last {count offset : Nat} (hsize : Traced.pageSize ctx.settings offset ≠ 0) :
      Shape ctx (.batches count offset) true
        [.asked false,
          .fetched Option.none ctx.settings.collection (Traced.pageSize ctx.settings offset) offset]
  | broken {count offset : Nat} {batch : List StoredDocument} {events : List Event}
      (hsize : Traced.pageSize ctx.settings offset ≠ 0)
      (h : ctx.store.fetch ctx.settings.collection (Traced.pageSize ctx.settings offset) offset =
        .ok batch)
      (page : Shape ctx
        (.documents (levels ctx.settings) (batch.map (Visit.root ctx.settings.collection))) false
        events) :
      Shape ctx (.batches (count + 1) offset) false
        (.asked false ::
          .fetched Option.none ctx.settings.collection (Traced.pageSize ctx.settings offset) offset ::
          events)
  | batch {count offset : Nat} {batch : List StoredDocument} {events events' : List Event}
      {complete : Bool} (hsize : Traced.pageSize ctx.settings offset ≠ 0)
      (h : ctx.store.fetch ctx.settings.collection (Traced.pageSize ctx.settings offset) offset =
        .ok batch)
      (page : Shape ctx
        (.documents (levels ctx.settings) (batch.map (Visit.root ctx.settings.collection))) true
        events)
      (others : Shape ctx (.batches count (offset + batch.length)) complete events') :
      Shape ctx (.batches (count + 1) offset) complete
        (.asked false ::
          .fetched Option.none ctx.settings.collection (Traced.pageSize ctx.settings offset) offset ::
          (events ++ events'))

/-! What is true of all events of a part of an export. -/

/-- Something is true of the events of documents of some kind and of what is nested in them; `r` is true of
documents below which it is so. -/
structure Scope (q r : Visit → Prop) (p : Event → Prop) : Prop where
  walk : ∀ v, q v → r v
  child : ∀ v name d, r v → q (v.child name d)
  asked : ∀ stop, p (.asked stop)
  fetched : ∀ v name limit offset, r v → p (.fetched (some v) (v.path ++ "/" ++ name) limit offset)
  listed : ∀ v, r v → p (.listed v)
  offered : ∀ v record, q v → p (.offered v record)
  addition : ∀ event, event.isAddition = true → p event
  settled : ∀ v fate, q v → p (.settled v fate)

/-- The documents of a part of an export are of some kind. -/
def Part.IsIn (q r : Visit → Prop) : Part → Prop
  | document _ v => q v
  | documents _ vs => ∀ v ∈ vs, q v
  | walk _ v | collections _ v _ => r v
  | batches .. => False

namespace Scope

variable {q r : Visit → Prop} {p : Event → Prop} {ctx : Context} {v : Visit} {events : List Event}

theorem offering (h : Scope q r p) (hv : q v) {record : Document.Entries} {fate : Option Fate}
    (ho : Offering v record fate events) : ∀ event ∈ events, p event := by
  obtain ⟨added, hadded, rfl⟩ := ho
  intro event hevent
  rw [List.mem_cons, List.mem_append, Option.mem_toList, Option.map_eq_some_iff] at hevent
  rcases hevent with rfl | hevent | ⟨fate, -, rfl⟩
  · exact h.offered v record hv
  · exact h.addition event (hadded event hevent)
  · exact h.settled v fate hv

theorem opened (h : Scope q r p) (hv : r v) (name : String) (limit offset : Nat)
    (hevents : ∀ event ∈ events, p event) : ∀ event ∈
      (.asked false :: .fetched (some v) (v.path ++ "/" ++ name) limit offset :: events), p event :=
  List.forall_mem_cons.2
    ⟨h.asked false, List.forall_mem_cons.2 ⟨h.fetched v name limit offset hv, hevents⟩⟩

theorem children (h : Scope q r p) (hv : r v) (levels : Nat) (name : String)
    (children : List StoredDocument) :
    (Part.documents levels (children.map (v.child name))).IsIn q r :=
  List.forall_mem_map.2 fun d _ => h.child v name d hv

theorem forall_mem (hs : Scope q r p) {part : Part} {complete : Bool}
    (h : Shape ctx part complete events) (hpart : part.IsIn q r) : ∀ event ∈ events, p event := by
  induction h with
  | unwritten | none | done => exact fun _ h => absurd h List.not_mem_nil
  | written _ ho | unfinished _ _ ho => exact hs.offering hpart ho
  | finished _ ho _ ih =>
    exact List.forall_mem_append.2 ⟨hs.offering hpart ho, ih (hs.walk _ hpart)⟩
  | embedded _ _ _ ih => exact ih (hs.walk _ hpart)
  | embedding _ _ _ ho ih =>
    exact List.forall_mem_append.2 ⟨ih (hs.walk _ hpart), hs.offering hpart ho⟩
  | cut _ ih => exact ih (hpart _ List.mem_cons_self)
  | next _ _ ih ih' =>
    exact List.forall_mem_append.2
      ⟨ih (hpart _ List.mem_cons_self), ih' fun v hv => hpart v (List.mem_cons_of_mem _ hv)⟩
  | unlisted => exact List.forall_mem_singleton.2 (hs.listed _ hpart)
  | listed _ _ ih => exact List.forall_mem_cons.2 ⟨hs.listed _ hpart, ih hpart⟩
  | stopped => exact List.forall_mem_singleton.2 (hs.asked true)
  | unfetched _ ih => exact hs.opened hpart _ _ _ (ih hpart)
  | interrupted _ _ ih => exact hs.opened hpart _ _ _ (ih (hs.children hpart _ _ _))
  | fetched _ _ _ ih ih' =>
    exact hs.opened hpart _ _ _
      (List.forall_mem_append.2 ⟨ih (hs.children hpart _ _ _), ih' hpart⟩)
  | spent | cancelled | full | last | broken | batch => exact hpart.elim

end Scope

/-- Every nested collection that is fetched lies below a path. -/
def FetchesBelow (base : String) (events : List Event) : Prop :=
  ∀ event ∈ events, ∀ above path limit offset, event = .fetched above path limit offset →
    above ≠ Option.none ∧ base.toList <+: path.toList

theorem FetchesBelow.nil (base : String) : FetchesBelow base [] :=
  fun _ h => absurd h List.not_mem_nil

theorem Visit.prefix_child (v : Visit) (name : String) (d : StoredDocument) :
    (v.path ++ "/" ++ name ++ "/").toList <+: ((v.child name d).path ++ "/").toList := by
  simp [Visit.path, Visit.child]

/-- What is fetched for documents below a path lies below it. -/
theorem Scope.below (base : String) :
    Scope (fun v => base.toList <+: (v.path ++ "/").toList)
      (fun v => base.toList <+: (v.path ++ "/").toList)
      (fun event => ∀ above path limit offset, event = .fetched above path limit offset →
        above ≠ Option.none ∧ base.toList <+: path.toList) where
  walk _ h := h
  child v name d h :=
    calc base.toList
      _ <+: (v.path ++ "/").toList := h
      _ <+: (v.path ++ "/" ++ name ++ "/").toList := by simp
      _ <+: ((v.child name d).path ++ "/").toList := v.prefix_child name d
  asked := by simp
  fetched v name limit offset h := by
    rintro _ _ _ _ ⟨⟩
    exact ⟨Option.some_ne_none v, h.trans (by simp)⟩
  listed := by simp
  offered := by simp
  addition := by
    rintro event h _ _ _ _ rfl
    cases h
  settled := by simp

/-- The relations that nested documents are written to have longer names than their parents'. -/
theorem Scope.longer (n : Nat) :
    Scope (fun v => n ≤ v.relation.length) (fun v => n ≤ v.relation.length + 1)
      (fun event => ∀ v record, event = .offered v record → n ≤ v.relation.length) where
  walk _ h := Nat.le_succ_of_le h
  child v name d h := by
    have hlength : (v.child name d).relation.length = v.relation.length + 1 + name.length := by
      simp only [Visit.child, nestedRelation, Relation.length_sanitize, String.length_append]
      rfl
    omega
  asked := by simp
  fetched := by simp
  listed := by simp
  offered v record h := by
    rintro _ _ ⟨⟩
    exact h
  addition := by
    rintro event h _ _ rfl
    cases h
  settled := by simp

/-- An event of an export that was told to stop. -/
def Event.isIdle : Event → Bool
  | asked stop => stop
  | listed _ => true
  | _ => false

/-- Parts of an export that ask whether to stop before they do more than list collections. -/
def Part.Asks : Part → Prop
  | walk .. | collections .. | batches .. => True
  | _ => False

/-- An export that is told to stop comes to an end there. -/
theorem Shape.idle {ctx : Context} {part : Part} {complete : Bool} {events : List Event}
    (h : Shape ctx part complete events) (hpart : part.Asks) (hno : .asked false ∉ events) :
    complete = true ∧ ∀ event ∈ events, event.isIdle = true := by
  induction h with
  | unlisted | stopped | cancelled => exact ⟨rfl, List.forall_mem_singleton.2 rfl⟩
  | listed _ _ ih =>
    obtain ⟨hcomplete, hall⟩ := ih trivial fun hmem => hno (List.mem_cons_of_mem _ hmem)
    exact ⟨hcomplete, List.forall_mem_cons.2 ⟨rfl, hall⟩⟩
  | done | spent => exact ⟨rfl, fun _ h => absurd h List.not_mem_nil⟩
  | unfetched | interrupted | fetched | full | last | broken | batch =>
    exact absurd List.mem_cons_self hno
  | _ => exact hpart.elim

/-- A collection is fetched only after the export was told to go on. -/
theorem Shape.asked_of_fetched {ctx : Context} {part : Part} {complete : Bool} {events : List Event}
    (h : Shape ctx part complete events) {above : Option Visit} {path : String} {limit offset : Nat}
    (hmem : .fetched above path limit offset ∈ events) : .asked false ∈ events := by
  have hoffering : ∀ {v record fate events}, Offering v record fate events →
      .fetched above path limit offset ∉ events := by
    rintro v record fate _ ⟨added, hadded, rfl⟩ hmem
    rw [List.mem_cons, List.mem_append, Option.mem_toList, Option.map_eq_some_iff] at hmem
    rcases hmem with hmem | hmem | ⟨fate, -, hmem⟩
    · cases hmem
    · cases hadded _ hmem
    · cases hmem
  induction h with
  | unwritten | none | done | spent => cases hmem
  | written _ ho | unfinished _ _ ho => exact absurd hmem (hoffering ho)
  | finished _ ho _ ih =>
    exact List.mem_append_right _ (ih ((List.mem_append.1 hmem).resolve_left (hoffering ho)))
  | embedded _ _ _ ih | cut _ ih => exact ih hmem
  | embedding _ _ _ ho ih =>
    exact List.mem_append_left _ (ih ((List.mem_append.1 hmem).resolve_right (hoffering ho)))
  | next _ _ ih ih' => exact List.mem_append.2 ((List.mem_append.1 hmem).imp ih ih')
  | unlisted | stopped | cancelled => cases List.mem_singleton.1 hmem
  | listed _ _ ih =>
    exact List.mem_cons_of_mem _ (ih ((List.mem_cons.1 hmem).resolve_left (by simp)))
  | unfetched | interrupted | fetched | full | last | broken | batch => exact List.mem_cons_self

end BackendMigration.Export
