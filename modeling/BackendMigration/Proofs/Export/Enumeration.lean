import BackendMigration.Proofs.Export.Visit
import Mathlib.Data.List.Basic

/-! Going on below new documents only keeps the first document at each path. -/
namespace BackendMigration.Export

/-! The first items of each key. -/
section firsts

variable {α κ : Type} [DecidableEq κ] {key : α → κ}

/-- The items whose keys are neither among those seen before nor keys of items before them. -/
def firstsBy (key : α → κ) : List κ → List α → List α
  | _, [] => []
  | seen, a :: r =>
    if key a ∈ seen then firstsBy key seen r else a :: firstsBy key (key a :: seen) r

theorem firstsBy_eq_nil {seen : List κ} {l : List α} (h : ∀ a ∈ l, key a ∈ seen) :
    firstsBy key seen l = [] := by
  induction l with
  | nil => rfl
  | cons a r ih =>
    rw [firstsBy, if_pos (h a List.mem_cons_self)]
    exact ih fun b hb => h b (List.mem_cons_of_mem a hb)

theorem mem_keys_firstsBy {seen : List κ} {l : List α} {k : κ} :
    k ∈ ((firstsBy key seen l).map key).reverse ++ seen ↔ k ∈ l.map key ∨ k ∈ seen := by
  induction l generalizing seen with
  | nil => simp [firstsBy]
  | cons a r ih =>
    simp only [firstsBy]
    split
    · rename_i ha
      have : k = key a → k ∈ seen := fun e => e ▸ ha
      rw [ih, List.map_cons, List.mem_cons]
      grind
    · have := @ih (key a :: seen)
      simp only [List.map_cons, List.reverse_cons, List.append_assoc, List.singleton_append]
      rw [this]
      simp only [List.mem_cons]
      grind

theorem firstsBy_append (seen : List κ) (l l' : List α) :
    firstsBy key seen (l ++ l') =
      firstsBy key seen l ++ firstsBy key (((firstsBy key seen l).map key).reverse ++ seen) l' := by
  induction l generalizing seen with
  | nil => rfl
  | cons a r ih =>
    simp only [List.cons_append, firstsBy]
    split
    · exact ih seen
    · rw [ih]
      simp

/-- Keys that tell the same items apart keep the same items. -/
theorem firstsBy_congr_key {κ' : Type} [DecidableEq κ'] {key' : α → κ'} {before l : List α}
    (h : ∀ a ∈ before ++ l, ∀ b ∈ before ++ l, key a = key b ↔ key' a = key' b) :
    firstsBy key (before.map key) l = firstsBy key' (before.map key') l := by
  induction l generalizing before with
  | nil => rfl
  | cons a r ih =>
    have hmem : key a ∈ before.map key ↔ key' a ∈ before.map key' := by
      simp only [List.mem_map]
      constructor
      · rintro ⟨b, hb, he⟩
        exact ⟨b, hb, (h b (by simp [hb]) a (by simp)).1 he⟩
      · rintro ⟨b, hb, he⟩
        exact ⟨b, hb, (h b (by simp [hb]) a (by simp)).2 he⟩
    simp only [firstsBy, hmem]
    split
    · exact ih fun b hb c hc => h b (by grind) c (by grind)
    · have := @ih (a :: before) fun b hb c hc => h b (by grind) c (by grind)
      rw [List.map_cons, List.map_cons] at this
      rw [this]

theorem eraseDupsBy_eq_firstsBy (l : List α) :
    l.eraseDupsBy (fun a b => key a == key b) = firstsBy key [] l := by
  have go (kept : List α) : List.eraseDupsBy.loop (fun a b => key a == key b) l kept =
      kept.reverse ++ firstsBy key (kept.map key) l := by
    induction l generalizing kept with
    | nil => simp [List.eraseDupsBy.loop, firstsBy]
    | cons a r ih =>
      have hany : kept.any (fun b => key a == key b) = decide (key a ∈ kept.map key) := by
        rw [Bool.eq_iff_iff]
        simp only [List.any_eq_true, beq_iff_eq, decide_eq_true_eq, List.mem_map]
        constructor
        · rintro ⟨b, hb, he⟩
          exact ⟨b, hb, he.symm⟩
        · rintro ⟨b, hb, he⟩
          exact ⟨b, hb, he.symm⟩
      rw [List.eraseDupsBy.loop, hany, firstsBy]
      by_cases ha : key a ∈ kept.map key
      · simp only [ha, decide_true, if_true, ih]
      · simp only [ha, decide_false, if_false, ih, List.reverse_cons, List.append_assoc,
          List.singleton_append, List.map_cons]
  exact go []

end firsts

/-! Paths of documents. -/

/-- The documents at a path are those of one of the collections, if there are any. -/
theorem Store.documents_eq (store : Store) (path : String) :
    store.documents path = [] ∨ ∃ c ∈ store.collections, store.documents path = c.2 := by
  unfold documents Keyed.get?
  cases hfind : store.collections.find? (·.1 == path) with
  | none => exact .inl rfl
  | some c => exact .inr ⟨c, List.mem_of_find?_eq_some hfind, rfl⟩

theorem Store.exists_of_mem_documents {store : Store} {path : String} {d : StoredDocument}
    (h : d ∈ store.documents path) : ∃ c ∈ store.collections, d ∈ c.2 := by
  rcases store.documents_eq path with hnone | ⟨c, hc, hdocuments⟩
  · rw [hnone] at h
    exact absurd h List.not_mem_nil
  · exact ⟨c, hc, hdocuments ▸ h⟩

/-- No id of a document has a slash, which is what paths are put together with. -/
def Store.PlainIds (store : Store) : Prop :=
  ∀ path, ∀ d ∈ store.documents path, '/' ∉ d.id.toList

/-- Nothing follows, or a slash does. -/
def GoesOn (t : Text) : Prop := t = [] ∨ ∃ r, t = '/' :: r

/-- Of two beginnings of a text with as many slashes, each followed by a slash or the end, one is
the other. -/
theorem eq_of_append_eq {a b s t : Text} (hs : GoesOn s) (ht : GoesOn t)
    (hc : a.count '/' = b.count '/') (h : a ++ s = b ++ t) : a = b := by
  have longer {a b s t : Text} (hs : GoesOn s) (hc : a.count '/' = b.count '/') {m : Text}
      (hb : b = a ++ m) (hst : s = m ++ t) : a = b := by
    cases m with
    | nil => simp [hb]
    | cons c r =>
      rcases hs with rfl | ⟨s', rfl⟩
      · cases hst
      · obtain rfl := (List.cons.inj hst).1
        simp [hb] at hc
  rcases List.append_eq_append_iff.1 h with ⟨m, hb, hst⟩ | ⟨m, ha, hts⟩
  · exact longer hs hc hb hst
  · exact (longer ht hc.symm ha hts).symm

theorem Store.slash_not_mem_of_nestedName? {documentPath path name : String}
    (h : nestedName? documentPath path = some name) : '/' ∉ name.toList := by
  simp only [nestedName?] at h
  split at h
  · rename_i hc
    cases h
    simp only [Bool.and_eq_true, Bool.not_eq_true', List.contains_eq_mem, decide_eq_false_iff_not]
      at hc
    simpa using hc.2
  · cases h

/-- A collection lies right below one document only. -/
theorem Store.eq_of_nestedName? {d d' path name name' : String} (h : nestedName? d path = some name)
    (h' : nestedName? d' path = some name') : d = d' := by
  have happend := nestedName?_eq_some h
  rw [nestedName?_eq_some h'] at happend
  have hcount := congrArg (List.count '/') happend
  rw [List.count_append, List.count_append, List.count_cons_self, List.count_cons_self,
    List.count_eq_zero.2 (slash_not_mem_of_nestedName? h),
    List.count_eq_zero.2 (slash_not_mem_of_nestedName? h')] at hcount
  exact String.toList_injective
    (eq_of_append_eq (.inr ⟨_, rfl⟩) (.inr ⟨_, rfl⟩) (by omega) happend.symm)

namespace Visit

variable {store : Store} {limit n : Nat} {u v w : Visit} {name name' : String} {d d' : StoredDocument}

def slashes (v : Visit) : Nat := v.path.toList.count '/'

theorem toList_path_child (v : Visit) (name : String) (d : StoredDocument) :
    (v.child name d).path.toList = v.path.toList ++ '/' :: (name.toList ++ '/' :: d.id.toList) := by
  have h : (v.child name d).path = v.path ++ "/" ++ name ++ "/" ++ d.id := rfl
  rw [h]
  simp

theorem slash_not_mem_of_mem_nested (h : name ∈ v.nested store) : '/' ∉ name.toList := by
  obtain ⟨path, -, hn⟩ := List.mem_filterMap.1 h
  exact Store.slash_not_mem_of_nestedName? hn

theorem mem_below : u ∈ v.below store limit ↔ ∃ name ∈ v.nested store,
    ∃ d ∈ (store.documents (v.path ++ "/" ++ name)).take limit, u = v.child name d := by
  simp only [below, children, List.mem_flatMap, List.mem_map, eq_comm]

theorem self_mem_tree (n : Nat) (v : Visit) : v ∈ v.tree store limit n := by
  cases n <;> simp [tree]

/-- What is met below a document has a path that goes on from its own. -/
theorem exists_of_mem_tree (h : w ∈ u.tree store limit n) :
    ∃ s, w.path.toList = u.path.toList ++ s ∧ GoesOn s := by
  induction n generalizing u with
  | zero =>
    obtain rfl : w = u := by simpa [tree] using h
    exact ⟨[], by simp, .inl rfl⟩
  | succ n ih =>
    simp only [tree, List.mem_cons, List.mem_flatMap] at h
    rcases h with rfl | ⟨c, hc, hw⟩
    · exact ⟨[], by simp, .inl rfl⟩
    · obtain ⟨name, -, d, -, rfl⟩ := mem_below.1 hc
      obtain ⟨s, hs, -⟩ := ih hw
      rw [hs, toList_path_child, List.append_assoc]
      exact ⟨_, rfl, .inr ⟨_, rfl⟩⟩

theorem slashes_child (hname : '/' ∉ name.toList) (hid : '/' ∉ d.id.toList) :
    (v.child name d).slashes = v.slashes + 2 := by
  rw [slashes, toList_path_child, List.count_append, List.count_cons_self, List.count_append,
    List.count_cons_self, List.count_eq_zero.2 hname, List.count_eq_zero.2 hid]
  rfl

theorem slashes_le_of_mem_tree (h : w ∈ u.tree store limit n) : u.slashes ≤ w.slashes := by
  obtain ⟨s, hs, -⟩ := exists_of_mem_tree h
  rw [slashes, slashes, hs, List.count_append]
  omega

theorem slash_not_mem_id (hstore : store.PlainIds) {path : String}
    (hd : d ∈ (store.documents path).take limit) : '/' ∉ d.id.toList :=
  hstore path d (List.mem_of_mem_take hd)

theorem slashes_of_mem_below (hstore : store.PlainIds) (h : u ∈ v.below store limit) :
    u.slashes = v.slashes + 2 := by
  obtain ⟨name, hname, d, hd, rfl⟩ := mem_below.1 h
  exact slashes_child (slash_not_mem_of_mem_nested hname) (slash_not_mem_id hstore hd)

/-- A path tells the document above and the name of the collection. -/
theorem path_child_inj (hs : v.slashes = w.slashes) (hname : '/' ∉ name.toList)
    (hname' : '/' ∉ name'.toList) (h : (v.child name d).path = (w.child name' d').path) :
    v.path = w.path ∧ name = name' := by
  have hl := congrArg String.toList h
  rw [toList_path_child, toList_path_child] at hl
  have hv := eq_of_append_eq (.inr ⟨_, rfl⟩) (.inr ⟨_, rfl⟩) hs hl
  rw [hv] at hl
  have hrest := (List.cons.inj (List.append_cancel_left hl)).2
  have hc : name.toList.count '/' = name'.toList.count '/' := by
    rw [List.count_eq_zero.2 hname, List.count_eq_zero.2 hname']
  exact ⟨String.toList_injective hv,
    String.toList_injective (eq_of_append_eq (.inr ⟨_, rfl⟩) (.inr ⟨_, rfl⟩) hc hrest)⟩

/-- Documents as deep as each other, where a path tells the relation. -/
def Siblings (l : List Visit) : Prop :=
  ∀ u ∈ l, ∀ w ∈ l, u.slashes = w.slashes ∧ (u.path = w.path → u.relation = w.relation)

theorem siblings_below (hstore : store.PlainIds) (v : Visit) :
    Siblings (v.below store limit) := by
  intro u hu w hw
  have hslashes : u.slashes = w.slashes := by
    rw [slashes_of_mem_below hstore hu, slashes_of_mem_below hstore hw]
  refine ⟨hslashes, fun h => ?_⟩
  obtain ⟨name, hname, d, -, rfl⟩ := mem_below.1 hu
  obtain ⟨name', hname', d', -, rfl⟩ := mem_below.1 hw
  obtain ⟨-, rfl⟩ := path_child_inj rfl (slash_not_mem_of_mem_nested hname)
    (slash_not_mem_of_mem_nested hname') h
  rfl

/-- A key tells the keys of what is met below it. -/
theorem map_key_tree (n : Nat) (h : v.key = w.key) :
    (v.tree store limit n).map key = (w.tree store limit n).map key := by
  induction n generalizing v w with
  | zero => simp [tree, h]
  | succ n ih =>
    obtain ⟨hr, hp⟩ := Prod.mk.inj h
    have hnested : v.nested store = w.nested store := by rw [nested, hp, nested]
    have hbelow (x : Visit) : ((x.below store limit).flatMap (tree store limit n)).map key =
        (x.nested store).flatMap fun name =>
          ((store.documents (x.path ++ "/" ++ name)).take limit).flatMap fun d =>
            ((x.child name d).tree store limit n).map key := by
      simp only [below, children, List.map_flatMap, List.flatMap_assoc, List.flatMap_map]
    rw [tree, tree, List.map_cons, List.map_cons, h, hbelow v, hbelow w, hnested]
    congr 1
    refine List.flatMap_congr fun name _ => ?_
    rw [hp]
    refine List.flatMap_congr fun d _ => ih ?_
    change (nestedRelation v.relation name, v.path ++ "/" ++ name ++ "/" ++ d.id) =
      (nestedRelation w.relation name, w.path ++ "/" ++ name ++ "/" ++ d.id)
    rw [hr, hp]

/-! What is nested in a document is met together with it. -/

/-- A document and what is nested in it were all met before, or none of them was. -/
def Whole (store : Store) (limit : Nat) (seen : List (String × String)) (n : Nat) (v : Visit) : Prop :=
  (∀ w ∈ v.tree store limit n, w.key ∈ seen) ∨ ∀ w ∈ v.tree store limit n, w.key ∉ seen

variable {seen : List (String × String)}

/-- Siblings at different paths have nothing nested in common. -/
theorem key_not_mem_tree {l : List Visit} (hl : Siblings l) (hu : u ∈ l) (hw : w ∈ l)
    (h : u.path ≠ w.path) {x : Visit} (hx : x ∈ w.tree store limit n) :
    x.key ∉ (u.tree store limit n).map key := by
  intro hmem
  obtain ⟨y, hy, hkey⟩ := List.mem_map.1 hmem
  obtain ⟨s, hs, hgo⟩ := exists_of_mem_tree hy
  obtain ⟨t, ht, hgo'⟩ := exists_of_mem_tree hx
  have hpath : y.path = x.path := (Prod.mk.inj hkey).2
  rw [hpath, ht] at hs
  exact h (String.toList_injective (eq_of_append_eq hgo' hgo (hl w hw u hu).1 hs)).symm

theorem Whole.congr {seen' : List (String × String)} (h : Whole store limit seen n v)
    (he : ∀ w ∈ v.tree store limit n, w.key ∈ seen' ↔ w.key ∈ seen) :
    Whole store limit seen' n v :=
  h.imp (fun hall w hw => (he w hw).2 (hall w hw)) fun hnone w hw hmem =>
    hnone w hw ((he w hw).1 hmem)

/-- After a document the next one is still whole. -/
theorem Whole.next {l : List Visit} (hl : Siblings l) (hu : u ∈ l) (hw : w ∈ l)
    (h : Whole store limit seen n w) :
    Whole store limit
      (((firstsBy key seen (u.tree store limit n)).map key).reverse ++ seen) n w := by
  -- A sibling at the same path was met with all below it, any other one shares nothing with `u`.
  by_cases hpath : u.path = w.path
  · left
    intro x hx
    have hkey : u.key = w.key := Prod.ext ((hl u hu w hw).2 hpath) hpath
    rw [mem_keys_firstsBy, map_key_tree n hkey]
    exact .inl (List.mem_map_of_mem hx)
  · refine h.congr fun x hx => ?_
    rw [mem_keys_firstsBy]
    exact or_iff_right (key_not_mem_tree hl hu hw hpath hx)

theorem pruneAll_eq_firstsBy {visit : Visit → List (String × String) → List Visit} {l : List Visit}
    (hl : Siblings l) (h : ∀ v ∈ l, Whole store limit seen n v)
    (hvisit : ∀ v ∈ l, ∀ seen, Whole store limit seen n v →
      visit v seen = firstsBy key seen (v.tree store limit n)) :
    pruneAll visit l seen = firstsBy key seen (l.flatMap (tree store limit n)) := by
  induction l generalizing seen with
  | nil => rfl
  | cons u rest ih =>
    have hu : u ∈ u :: rest := List.mem_cons_self
    have hafter : ∀ w ∈ rest, Whole store limit
        (((firstsBy key seen (u.tree store limit n)).map key).reverse ++ seen) n w := fun w hw =>
      (h w (List.mem_cons_of_mem _ hw)).next hl hu (List.mem_cons_of_mem _ hw)
    have hrest := ih (fun a ha b hb => hl a (List.mem_cons_of_mem _ ha) b (List.mem_cons_of_mem _ hb))
      hafter fun w hw => hvisit w (List.mem_cons_of_mem _ hw)
    rw [pruneAll, List.flatMap_cons, firstsBy_append, hvisit u hu seen (h u hu), hrest]

/-- Below a document that was met before there is nothing new. -/
theorem prune_eq_firstsBy (hstore : store.PlainIds) (h : Whole store limit seen n v) :
    prune store limit n v seen = firstsBy key seen (v.tree store limit n) := by
  induction n generalizing v seen with
  | zero =>
    rw [tree, firstsBy]
    by_cases hseen : v.key ∈ seen
    · rw [prune_of_mem 0 hseen, if_pos hseen]
      rfl
    · rw [prune_zero hseen, if_neg hseen]
      rfl
  | succ n ih =>
    by_cases hseen : v.key ∈ seen
    · rw [prune_of_mem _ hseen]
      refine (firstsBy_eq_nil ?_).symm
      exact h.resolve_right fun hnone => hnone v (self_mem_tree _ v) hseen
    · have hnone := h.resolve_left fun hall => hseen (hall v (self_mem_tree _ v))
      rw [prune_succ n hseen, tree, firstsBy, if_neg hseen]
      congr 1
      refine pruneAll_eq_firstsBy (siblings_below hstore v) (fun u hu => .inr fun w hw hmem => ?_)
        fun u _ seen hu => ih hu
      -- What lies below `v` has more slashes in its path than `v`, so `v` itself hides none of it.
      rcases List.mem_cons.1 hmem with hkey | hmem
      · have hle := slashes_le_of_mem_tree hw
        rw [slashes_of_mem_below hstore hu, slashes, slashes, (Prod.mk.inj hkey).2] at hle
        omega
      · exact hnone w (List.mem_cons_of_mem _ (List.mem_flatMap.2 ⟨u, hu, hw⟩)) hmem

/-- A path tells the relation, if it does so for two documents above. -/
theorem relation_eq_of_path_eq (hstore : store.PlainIds) {x y : Visit}
    (hslashes : v.slashes = w.slashes) (h : v.path = w.path → v.relation = w.relation)
    (hx : x ∈ v.tree store limit n) (hy : y ∈ w.tree store limit n) (hpath : x.path = y.path) :
    x.relation = y.relation := by
  -- The same path is as deep below both, so only two cases of four are left at each level.
  have hxy : x.slashes = y.slashes := by rw [slashes, slashes, hpath]
  induction n generalizing v w with
  | zero =>
    obtain rfl : x = v := by simpa [tree] using hx
    obtain rfl : y = w := by simpa [tree] using hy
    exact h hpath
  | succ n ih =>
    simp only [tree, List.mem_cons, List.mem_flatMap] at hx hy
    rcases hx with rfl | ⟨u, hu, hx⟩
    · rcases hy with rfl | ⟨u', hu', hy⟩
      · exact h hpath
      · have := slashes_le_of_mem_tree hy
        have := slashes_of_mem_below hstore hu'
        omega
    · have hxs := slashes_le_of_mem_tree hx
      have hus := slashes_of_mem_below hstore hu
      rcases hy with rfl | ⟨u', hu', hy⟩
      · omega
      · have hus' := slashes_of_mem_below hstore hu'
        refine ih (by omega) (fun hp => ?_) hx hy
        obtain ⟨name, hname, d, -, rfl⟩ := mem_below.1 hu
        obtain ⟨name', hname', d', -, rfl⟩ := mem_below.1 hu'
        obtain ⟨hvw, rfl⟩ := path_child_inj hslashes (slash_not_mem_of_mem_nested hname)
          (slash_not_mem_of_mem_nested hname') hp
        change nestedRelation v.relation name = nestedRelation w.relation name
        rw [h hvw]

end Visit

variable {store : Store}

theorem exists_of_mem_roots {s : Settings} {v : Visit} (h : v ∈ roots store s) :
    ∃ d ∈ store.documents s.collection, v = Visit.root s.collection d := by
  obtain ⟨d, hd, rfl⟩ := List.mem_map.1 h
  refine ⟨d, ?_, rfl⟩
  split at hd
  · exact hd
  · exact List.mem_of_mem_take hd

theorem siblings_roots (hstore : store.PlainIds) (s : Settings) :
    Visit.Siblings (roots store s) := by
  intro u hu w hw
  obtain ⟨d, hd, rfl⟩ := exists_of_mem_roots hu
  obtain ⟨d', hd', rfl⟩ := exists_of_mem_roots hw
  refine ⟨?_, fun _ => rfl⟩
  have hslashes (d : StoredDocument) (hd : d ∈ store.documents s.collection) :
      (Visit.root s.collection d).slashes = s.collection.toList.count '/' + 1 := by
    have hid := List.count_eq_zero.2 (hstore s.collection d hd)
    simp [Visit.slashes, Visit.path, Visit.root, hid]
  rw [hslashes d hd, hslashes d' hd']

/-- Going on below new documents only is keeping the first document at each path. -/
theorem pruneAll_roots (hstore : store.PlainIds) (s : Settings) :
    pruneAll (prune store s.subcollectionLimit (levels s)) (roots store s) [] =
      enumeration store s := by
  have hl := siblings_roots hstore s
  have hwhole : ∀ v ∈ roots store s, Visit.Whole store s.subcollectionLimit [] (levels s) v :=
    fun v _ => .inr fun w _ => List.not_mem_nil
  rw [Visit.pruneAll_eq_firstsBy hl hwhole fun v _ seen h => Visit.prune_eq_firstsBy hstore h,
    enumeration, eraseDupsBy_eq_firstsBy]
  refine @firstsBy_congr_key _ _ _ Visit.key _ _ Visit.path [] _ fun x hx y hy =>
    ⟨fun h => (Prod.mk.inj h).2, fun h => ?_⟩
  obtain ⟨u, hu, hx⟩ := List.mem_flatMap.1 hx
  obtain ⟨w, hw, hy⟩ := List.mem_flatMap.1 hy
  have hrelation := Visit.relation_eq_of_path_eq hstore (hl u hu w hw).1 (hl u hu w hw).2 hx hy h
  exact Prod.ext hrelation h

/-! Where a document that is kept comes from. -/

variable {v w : Visit} {limit n : Nat} {seen : List (String × String)}

theorem exists_of_mem_pruneAll {visit : Visit → List (String × String) → List Visit} {l : List Visit}
    (h : w ∈ pruneAll visit l seen) : ∃ u ∈ l, ∃ seen', w ∈ visit u seen' ∧
      ∀ p ∈ visit u seen', p ∈ pruneAll visit l seen := by
  induction l generalizing seen with
  | nil => exact absurd h List.not_mem_nil
  | cons u rest ih =>
    rcases List.mem_append.1 h with h | h
    · exact ⟨u, List.mem_cons_self, seen, h, fun p hp => List.mem_append_left _ hp⟩
    · obtain ⟨u', hu', seen', hw, hall⟩ := ih h
      exact ⟨u', List.mem_cons_of_mem u hu', seen', hw,
        fun p hp => List.mem_append_right _ (hall p hp)⟩

/-- A document is nested in another one that is written. -/
def Visit.NestedIn (store : Store) (w : Visit) (p : Visit) : Prop :=
  ∃ name ∈ p.nested store, ∃ d ∈ store.documents (p.path ++ "/" ++ name), w = p.child name d

/-- Nothing is written below a document that is not. -/
theorem exists_parent_of_mem_prune (h : w ∈ prune store limit n v seen) :
    w = v ∨ ∃ p ∈ prune store limit n v seen, p.depth < v.depth + n ∧ w.NestedIn store p := by
  induction n generalizing v seen with
  | zero =>
    by_cases hseen : v.key ∈ seen
    · rw [prune_of_mem 0 hseen] at h
      exact absurd h List.not_mem_nil
    · rw [prune_zero hseen] at h
      exact .inl (List.mem_singleton.1 h)
  | succ n ih =>
    by_cases hseen : v.key ∈ seen
    · rw [prune_of_mem _ hseen] at h
      exact absurd h List.not_mem_nil
    · rw [prune_succ n hseen] at h ⊢
      rcases List.mem_cons.1 h with rfl | h
      · exact .inl rfl
      · obtain ⟨u, hu, seen', hw, hall⟩ := exists_of_mem_pruneAll h
        obtain ⟨name, hname, d, hd, rfl⟩ := Visit.mem_below.1 hu
        right
        rcases ih hw with rfl | ⟨p, hp, hdepth, hnested⟩
        · exact ⟨v, List.mem_cons_self, by omega, name, hname, d, List.mem_of_mem_take hd, rfl⟩
        · refine ⟨p, List.mem_cons_of_mem v (hall p hp), ?_, hnested⟩
          change p.depth < v.depth + 1 + n at hdepth
          omega

/-- A document that is kept is one of the exported collection or is nested in another one that is
kept. -/
theorem exists_parent_of_mem_enumeration (hstore : store.PlainIds) {s : Settings}
    (h : w ∈ enumeration store s) :
    (∃ d ∈ store.documents s.collection, w = Visit.root s.collection d) ∨
      ∃ p ∈ enumeration store s, p.depth < levels s ∧ w.NestedIn store p := by
  rw [← pruneAll_roots hstore s] at h ⊢
  obtain ⟨u, hu, seen, hw, hall⟩ := exists_of_mem_pruneAll h
  obtain ⟨d, hd, rfl⟩ := exists_of_mem_roots hu
  rcases exists_parent_of_mem_prune hw with rfl | ⟨p, hp, hdepth, hnested⟩
  · exact .inl ⟨d, hd, rfl⟩
  · refine .inr ⟨p, hall p hp, ?_, hnested⟩
    change p.depth < 0 + levels s at hdepth
    omega

end BackendMigration.Export
