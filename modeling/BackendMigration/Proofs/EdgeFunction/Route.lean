import BackendMigration.Proofs.EdgeFunction.Identifiers
import BackendMigration.Proofs.Text.Pieces
import Mathlib.Logic.Relation

/-! The table that a path names. A path leads through collections and their documents in turn; its slashes part them, and
how many stand at one place does not matter. -/
namespace BackendMigration.EdgeFunction

/-- A collection or a document on the way of a path. -/
structure Segment where
  text : Text
  ne_nil : text ≠ []
  no_slash : '/' ∉ text

/-- A wildcard stands for any collection. -/
def Segment.IsWildcard (s : Segment) : Prop := s.text.head? = some '\x7b'

/-- What a path leads through: collections, each with a document of it, and behind them one more collection at most. -/
structure Route where
  steps : List (Segment × Segment)
  last : Option Segment

namespace Route

def segments (r : Route) : List Segment := (r.steps.flatMap fun s => [s.1, s.2]) ++ r.last.toList

def collections (r : Route) : List Segment := r.steps.map Prod.fst ++ r.last.toList

/-- The path with one slash between each two segments. -/
def path (r : Route) : Text := Text.join ['/'] (r.segments.map Segment.text)

end Route

/-- One path has a slash more than the other: in front, at its end or beside another slash. -/
inductive AddsSlash : Text → Text → Prop
  | leading (p : Text) : AddsSlash p ('/' :: p)
  | trailing (p : Text) : AddsSlash p (p ++ ['/'])
  | repeated (p q : Text) : AddsSlash (p ++ '/' :: q) (p ++ '/' :: '/' :: q)

/-- Adding and removing leading, trailing and repeated slashes leads from one path to the other. -/
def SameButSlashes : Text → Text → Prop := Relation.EqvGen AddsSlash

/-- A table is named after the last collection that is no wildcard; without one it is the default table. -/
inductive NamedAfter : List Segment → String → Prop
  | collection {before after : List Segment} {c : Segment} (hc : ¬c.IsWildcard)
      (hafter : ∀ w ∈ after, w.IsWildcard) :
      NamedAfter (before ++ c :: after) (String.ofList (c.text.map tableChar))
  | wildcards {collections : List Segment} (h : ∀ w ∈ collections, w.IsWildcard) :
      NamedAfter collections defaultTable

variable {p q : Text}

/-! Segments and slashes. -/

@[simp] theorem pathSegments_nil : pathSegments [] = [] := rfl

/-- A path has the segments on both sides of any of its slashes. -/
theorem pathSegments_append (p q : Text) :
    pathSegments (p ++ '/' :: q) = pathSegments p ++ pathSegments q := by
  rw [pathSegments, Text.splitBy_append rfl, List.filter_append]
  rfl

theorem pathSegments_of_not_mem (hne : p ≠ []) (h : '/' ∉ p) : pathSegments p = [p] := by
  have hwhole : Text.splitBy (· == '/') p = [p] := by
    apply Text.splitBy_of_not_cut
    intro c hc
    exact beq_eq_false_iff_ne.2 fun heq => h (heq ▸ hc)
  rw [pathSegments, hwhole]
  simp [hne]

theorem pathSegments_cons (p : Text) : pathSegments ('/' :: p) = pathSegments p := by
  have h := pathSegments_append [] p
  rwa [pathSegments_nil, List.nil_append, List.nil_append] at h

theorem isSegment_of_mem_pathSegments {s : Text} (h : s ∈ pathSegments p) : s ≠ [] ∧ '/' ∉ s := by
  obtain ⟨hpiece, hne⟩ := List.mem_filter.1 h
  constructor
  · simpa using hne
  · intro hslash
    have := Text.eq_false_of_mem_splitBy hpiece _ hslash
    simp at this

theorem AddsSlash.pathSegments_eq (h : AddsSlash p q) : pathSegments p = pathSegments q := by
  cases h with
  | leading p => rw [pathSegments_cons]
  | trailing p => rw [pathSegments_append, pathSegments_nil, List.append_nil]
  | repeated p q => rw [pathSegments_append, pathSegments_append, pathSegments_cons]

theorem SameButSlashes.pathSegments_eq (h : SameButSlashes p q) : pathSegments p = pathSegments q := by
  induction h with
  | rel p q h => exact h.pathSegments_eq
  | refl p => rfl
  | symm p q _ ih => exact ih.symm
  | trans p q r _ _ ih ih' => exact ih.trans ih'

/-- What stands behind a slash can be replaced by the same but for slashes. -/
theorem SameButSlashes.behind (w : Text) (h : SameButSlashes p q) :
    SameButSlashes (w ++ '/' :: p) (w ++ '/' :: q) := by
  induction h with
  | rel p q h =>
    apply Relation.EqvGen.rel
    cases h with
    | leading p => exact .repeated w p
    | trailing p => simpa using AddsSlash.trailing (w ++ '/' :: p)
    | repeated p q => simpa using AddsSlash.repeated (w ++ '/' :: p) q
  | refl p => exact .refl _
  | symm p q _ ih => exact ih.symm
  | trans p q r _ _ ih ih' => exact ih.trans _ _ _ ih'

/-- A path is the one with single slashes between its segments, but for slashes. -/
theorem sameButSlashes_join (p : Text) : SameButSlashes (Text.join ['/'] (pathSegments p)) p := by
  induction hlength : p.length using Nat.strongRecOn generalizing p with
  | ind n ih =>
    -- the first slash ends a segment, or leads the path
    by_cases hslash : '/' ∈ p
    · obtain ⟨w, q, rfl, hw⟩ := List.eq_append_cons_of_mem hslash
      have hrest := ih q.length (by simp at hlength; omega) q rfl
      rw [pathSegments_append]
      by_cases hne : w = []
      · subst hne
        exact hrest.trans _ _ _ (.rel _ _ (.leading q))
      · rw [pathSegments_of_not_mem hne hw]
        cases hsegments : pathSegments q with
        | nil =>
          rw [hsegments] at hrest
          have htrailing : SameButSlashes w (w ++ '/' :: []) := .rel _ _ (.trailing w)
          exact htrailing.trans _ _ _ (hrest.behind w)
        | cons s rest =>
          rw [hsegments] at hrest
          simpa [Text.join] using hrest.behind w
    · by_cases hne : p = []
      · subst hne
        exact .refl _
      · rw [pathSegments_of_not_mem hne hslash]
        exact .refl _

theorem sameButSlashes_iff : SameButSlashes p q ↔ pathSegments p = pathSegments q := by
  constructor
  · exact SameButSlashes.pathSegments_eq
  · intro h
    have hp := sameButSlashes_join p
    rw [h] at hp
    exact hp.symm.trans _ _ _ (sameButSlashes_join q)

/-! Routes of paths. -/

theorem pathSegments_path (r : Route) : pathSegments r.path = r.segments.map Segment.text := by
  rw [Route.path]
  cases hsegments : r.segments with
  | nil => rfl
  | cons s rest =>
    have hcut : Text.splitBy (· == '/') (Text.join ['/'] ((s :: rest).map Segment.text)) =
        (s :: rest).map Segment.text := by
      apply Text.splitBy_join (by simp) rfl
      intro t ht a ha
      obtain ⟨s', -, rfl⟩ := List.mem_map.1 ht
      exact beq_eq_false_iff_ne.2 fun heq => s'.no_slash (heq ▸ ha)
    rw [pathSegments, hcut, List.filter_eq_self]
    intro t ht
    obtain ⟨s', -, rfl⟩ := List.mem_map.1 ht
    simp [s'.ne_nil]

/-- The segments of any path alternate as a route does. -/
theorem exists_segments_eq (l : List Segment) : ∃ r : Route, r.segments = l := by
  fun_induction everyOther l with
  | case1 => exact ⟨⟨[], none⟩, rfl⟩
  | case2 c => exact ⟨⟨[], some c⟩, rfl⟩
  | case3 c d l ih =>
    obtain ⟨r, hr⟩ := ih
    refine ⟨⟨(c, d) :: r.steps, r.last⟩, ?_⟩
    rw [← hr]
    rfl

theorem exists_route (p : Text) : ∃ r : Route, SameButSlashes r.path p := by
  have hvalid : ∀ s ∈ pathSegments p, s ≠ [] ∧ '/' ∉ s := fun s => isSegment_of_mem_pathSegments
  obtain ⟨r, hr⟩ := exists_segments_eq
    ((pathSegments p).pmap (fun s (h : s ≠ [] ∧ '/' ∉ s) => ⟨s, h.1, h.2⟩) hvalid)
  refine ⟨r, sameButSlashes_iff.2 ?_⟩
  rw [pathSegments_path, hr, List.map_pmap]
  exact List.pmap_eq_self.2 fun s _ => rfl

theorem everyOther_segments (r : Route) :
    everyOther (r.segments.map Segment.text) = r.collections.map Segment.text := by
  obtain ⟨steps, last⟩ := r
  induction steps with
  | nil => cases last <;> rfl
  | cons s steps ih => exact congrArg (s.1.text :: ·) ih

/-! The table of a route. -/

/-- The last collection of a route that is no wildcard. -/
def Route.named? (r : Route) : Option Segment :=
  r.collections.reverse.find? fun s => s.text.head? != some '\x7b'

theorem lastCollection?_of_route {r : Route} {path : String} (h : SameButSlashes r.path path.toList) :
    lastCollection? (some path) = r.named?.map Segment.text := by
  have hsegments : pathSegments path.toList = r.segments.map Segment.text := by
    rw [← h.pathSegments_eq, pathSegments_path]
  rw [lastCollection?, Option.getD_some, hsegments, everyOther_segments, ← List.map_reverse,
    List.find?_map]
  rfl

/-- Only the collections of a route tell its table. -/
theorem deriveTable_of_route {r : Route} {path : String} (h : SameButSlashes r.path path.toList) :
    deriveTable (some path) =
      r.named?.elim defaultTable fun s => String.ofList (s.text.map tableChar) := by
  rw [deriveTable_eq, lastCollection?_of_route h]
  cases r.named? <;> rfl

theorem namedAfter_named? (r : Route) :
    NamedAfter r.collections (r.named?.elim defaultTable fun s => String.ofList (s.text.map tableChar)) := by
  cases hnamed : r.named? with
  | none =>
    apply NamedAfter.wildcards
    intro w hw
    have := List.find?_eq_none.1 hnamed w (List.mem_reverse.2 hw)
    simpa [Segment.IsWildcard] using this
  | some c =>
    obtain ⟨hc, after, before, hsplit, hafter⟩ := List.find?_eq_some_iff_append.1 hnamed
    have hcollections : r.collections = before.reverse ++ c :: after.reverse := by
      have := congrArg List.reverse hsplit
      simpa using this
    rw [hcollections]
    apply NamedAfter.collection
    · simpa [Segment.IsWildcard] using hc
    · intro w hw
      have := hafter w (List.mem_reverse.1 hw)
      simpa [Segment.IsWildcard] using this

theorem deriveTable_ne_empty (path : Option String) : deriveTable path ≠ "" := by
  rw [deriveTable_eq]
  cases hlast : lastCollection? path with
  | none => decide
  | some s =>
    intro hempty
    have hnil : s.map tableChar = [] := by
      have := congrArg String.toList hempty
      simpa using this
    exact ne_nil_of_lastCollection? hlast (List.map_eq_nil_iff.1 hnil)

theorem isIdentifierChar_of_mem_deriveTable (path : Option String) :
    ∀ c ∈ (deriveTable path).toList, isIdentifierChar c = true := by
  have hdefault : defaultTable.toList.all isIdentifierChar = true := by decide
  rw [deriveTable_eq]
  cases lastCollection? path with
  | none => exact List.all_eq_true.1 hdefault
  | some s => simp [isIdentifierChar_tableChar]

/-- Every path has a table, of letters, digits and underscores. It is named after the last collection on the path's route
that is no wildcard, however many slashes stand at one place and whatever documents stand between the collections. -/
theorem deriveTable_namedAfter :
    (∀ path : Option String, deriveTable path ≠ "" ∧
      ∀ c ∈ (deriveTable path).toList, isIdentifierChar c = true) ∧
    (∀ path : String, ∃ r : Route, SameButSlashes r.path path.toList) ∧
    (∀ (r : Route) (path : String), SameButSlashes r.path path.toList →
      NamedAfter r.collections (deriveTable (some path))) ∧
    (∀ path path' : String, SameButSlashes path.toList path'.toList →
      deriveTable (some path) = deriveTable (some path')) ∧
    ∀ (r r' : Route) (path path' : String), SameButSlashes r.path path.toList →
      SameButSlashes r'.path path'.toList → r.collections = r'.collections →
        deriveTable (some path) = deriveTable (some path') := by
  refine ⟨fun path => ⟨deriveTable_ne_empty path, isIdentifierChar_of_mem_deriveTable path⟩,
    fun path => exists_route path.toList, ?_, ?_, ?_⟩
  · intro r path h
    rw [deriveTable_of_route h]
    exact namedAfter_named? r
  · intro path path' h
    obtain ⟨r, hr⟩ := exists_route path.toList
    rw [deriveTable_of_route hr, deriveTable_of_route (hr.trans _ _ _ h)]
  · intro r r' path path' h h' hcollections
    rw [deriveTable_of_route h, deriveTable_of_route h', Route.named?, Route.named?, hcollections]

theorem deriveTable_namedAfter_teamOrders :
    let user : Segment × Segment :=
      (⟨"users".toList, by decide, by decide⟩, ⟨"{userId}".toList, by decide, by decide⟩)
    let order : Segment × Segment :=
      (⟨"team-orders".toList, by decide, by decide⟩, ⟨"{orderId}".toList, by decide, by decide⟩)
    let r : Route := ⟨[user, order], some ⟨"{kind}".toList, by decide, by decide⟩⟩
    let path := "/users/{userId}//team-orders/{orderId}/{kind}//"
    SameButSlashes r.path path.toList ∧ NamedAfter r.collections (deriveTable (some path)) ∧
      deriveTable (some path) = "team_orders" := by
  intro user order r path
  have h : SameButSlashes r.path path.toList := sameButSlashes_iff.2 (by decide)
  exact ⟨h, deriveTable_namedAfter.2.2.1 r path h, by decide⟩

end BackendMigration.EdgeFunction
