import BackendMigration.Proofs.Export.Order

/-! The bounds of an export, in what it asks of the store. -/
namespace BackendMigration.Export

open Traced (pageSize)

/-- What some events ask of the store is within the bounds of an export. -/
structure Bounded (store : Store) (s : Settings) (trace : List Event) : Prop where
  /-- What is nested in a document is asked for above the greatest depth only. -/
  listed : ∀ before v after, trace = before ++ .listed v :: after →
    s.includeSubcollections = true ∧ v.depth < s.maxDepth ∧
      ∃ chain, Chained store s chain v ∧ chain.length = v.depth + 1
  /-- After each listing of a document a collection nested in it is asked for at most once. -/
  nested : ∀ before v path limit offset after,
    trace = before ++ .fetched (some v) path limit offset :: after →
    v.depth + 1 ≤ s.maxDepth ∧ limit = s.subcollectionLimit ∧ offset = 0 ∧
      ∃ name earlier since, path = v.path ++ "/" ++ name ∧ '/' ∉ name.toList ∧
        before = earlier ++ .listed v :: since ∧
        ∀ above limit offset, .fetched above path limit offset ∉ since
  /-- A batch goes on after the documents of those before, and not beyond the limit. -/
  root : ∀ before path limit offset after, trace = before ++ .fetched none path limit offset :: after →
    path = s.collection ∧ offset = answered store before ∧ 1 ≤ limit ∧ limit ≤ s.batchSize ∧
      (0 < s.limit → answered store before < s.limit ∧ offset + limit ≤ s.limit)
  total : 0 < s.limit → answered store trace ≤ s.limit

variable {s : Settings} {store : Store} {path : String} {limit offset : Nat}

theorem Event.answered_fetched_le (store : Store) (path : String) (limit offset : Nat) :
    (Event.fetched none path limit offset).answered store ≤ limit := by
  change ((store.fetch path limit offset).toOption.map List.length).getD 0 ≤ limit
  cases h : store.fetch path limit offset with
  | error message => exact Nat.zero_le limit
  | ok documents => exact Store.length_fetch_le h

theorem pageSize_le (s : Settings) (offset : Nat) : pageSize s offset ≤ s.batchSize := by
  unfold pageSize
  split <;> omega

theorem add_pageSize_le (hlimit : 0 < s.limit) (h : pageSize s offset ≠ 0) :
    offset < s.limit ∧ offset + pageSize s offset ≤ s.limit := by
  rw [pageSize, if_neg hlimit.ne'] at h ⊢
  omega

theorem depth_of_levels {depth : Nat} (h : depth < levels s) :
    s.includeSubcollections = true ∧ depth < s.maxDepth := by
  unfold levels at h
  split at h
  · exact ⟨‹_›, h⟩
  · cases h

/-- If each batch is within the limit, all batches together are. -/
theorem answered_le {trace : List Event}
    (h : ∀ before path limit offset after, trace = before ++ .fetched none path limit offset :: after →
      answered store before + limit ≤ s.limit) : answered store trace ≤ s.limit := by
  have hfront : ∀ front back, trace = front ++ back → answered store front ≤ s.limit := by
    intro front
    induction front using List.reverseRecOn with
    | nil => exact fun _ _ => Nat.zero_le _
    | append_singleton front event ih =>
      intro back hsplit
      rw [List.append_assoc] at hsplit
      have hbefore := ih _ hsplit
      have hevent : answered store [event] = event.answered store := by simp [answered]
      rw [answered_append, hevent]
      cases event with
      | fetched above path limit offset =>
        cases above with
        | none =>
          have hsize := Event.answered_fetched_le store path limit offset
          have hlimit := h front path limit offset back hsplit
          omega
        | some v => exact hbefore
      | _ => exact hbefore
  exact hfront trace [] (List.append_nil trace).symm

/-- Users of whom the first one has orders that have items. -/
def Store.withItems : Store where
  collections :=
    [("users", [⟨"ada", []⟩, ⟨"bob", []⟩, ⟨"cyd", []⟩, ⟨"dot", []⟩]),
      ("users/ada/orders", [⟨"first", []⟩]), ("users/ada/orders/first/items", [⟨"ink", []⟩])]
  distinct := by decide

end BackendMigration.Export
