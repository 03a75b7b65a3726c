import BackendMigration.Export.Walk

/-! The documents that an export meets, as a tree below each document of the collection. -/
namespace BackendMigration.Export

/-- A document as a walk meets it. -/
structure Visit where
  document : StoredDocument
  relation : String
  depth : Nat
  collectionPath : String
  linkage : Option Linkage

namespace Visit

/-- The path of the document. -/
def path (v : Visit) : String := v.collectionPath ++ "/" ++ v.document.id

/-- By what the document is recognized within an export. -/
def key (v : Visit) : String × String := (v.relation, v.path)

/-- What is written for the document. -/
def record (v : Visit) : Document.Entries := baseRecord v.document v.linkage

/-- A document of the exported collection. -/
def root (collection : String) (d : StoredDocument) : Visit :=
  ⟨d, Relation.sanitize collection, 0, collection, none⟩

/-- A document of a collection nested in another document. -/
def child (v : Visit) (name : String) (d : StoredDocument) : Visit :=
  ⟨d, nestedRelation v.relation name, v.depth + 1, v.path ++ "/" ++ name,
    some ⟨v.relation, v.document.id, v.path ++ "/" ++ name⟩⟩

/-- The names of the collections nested in the document, in the order of their listing. -/
def nested (store : Store) (v : Visit) : List String :=
  (Keyed.keys store.collections).filterMap (Store.nestedName? v.path)

/-- The documents of one nested collection, at most `limit`. -/
def children (store : Store) (limit : Nat) (v : Visit) (name : String) : List Visit :=
  ((store.documents (v.path ++ "/" ++ name)).take limit).map (v.child name)

/-- The documents of all nested collections. -/
def below (store : Store) (limit : Nat) (v : Visit) : List Visit :=
  (v.nested store).flatMap (v.children store limit)

/-- The document and, through at most `levels` nested collections, what is nested in it, each
document before what is nested in it. -/
def tree (store : Store) (limit : Nat) : (levels : Nat) → Visit → List Visit
  | 0, v => [v]
  | levels + 1, v => v :: (v.below store limit).flatMap (tree store limit levels)

end Visit

/-- The documents of the exported collection that its limit allows. -/
def roots (store : Store) (s : Settings) : List Visit :=
  let documents := store.documents s.collection
  (if s.limit = 0 then documents else documents.take s.limit).map (Visit.root s.collection)

/-- The documents that an export keeps: of all that it could meet, the first at each path. -/
def enumeration (store : Store) (s : Settings) : List Visit :=
  ((roots store s).flatMap (Visit.tree store s.subcollectionLimit (levels s))).eraseDupsBy
    fun a b => a.path == b.path

/-! The same documents as a walk that goes on below new documents only. -/

/-- Visit documents in turn; `seen` are the keys of those met before. -/
def pruneAll (visit : Visit → List (String × String) → List Visit) :
    List Visit → List (String × String) → List Visit
  | [], _ => []
  | v :: rest, seen =>
    let new := visit v seen
    new ++ pruneAll visit rest ((new.map Visit.key).reverse ++ seen)

/-- The new documents among a document and what is nested in it. -/
def prune (store : Store) (limit : Nat) : (levels : Nat) → Visit → List (String × String) → List Visit
  | 0, v, seen => if v.key ∈ seen then [] else [v]
  | levels + 1, v, seen =>
    if v.key ∈ seen then []
    else v :: pruneAll (prune store limit levels) (v.below store limit) (v.key :: seen)

section prune

variable {store : Store} {limit : Nat} {v : Visit} {seen : List (String × String)}

theorem prune_of_mem (n : Nat) (h : v.key ∈ seen) : prune store limit n v seen = [] := by
  cases n <;> exact if_pos h

theorem prune_zero (h : v.key ∉ seen) : prune store limit 0 v seen = [v] := if_neg h

theorem prune_succ (n : Nat) (h : v.key ∉ seen) : prune store limit (n + 1) v seen =
    v :: pruneAll (prune store limit n) (v.below store limit) (v.key :: seen) :=
  if_neg h

end prune

theorem pruneAll_append (visit : Visit → List (String × String) → List Visit) (l l' : List Visit)
    (seen : List (String × String)) :
    pruneAll visit (l ++ l') seen = pruneAll visit l seen ++
      pruneAll visit l' (((pruneAll visit l seen).map Visit.key).reverse ++ seen) := by
  induction l generalizing seen with
  | nil => rfl
  | cons v rest ih => simp only [List.cons_append, pruneAll, ih, List.append_assoc,
      List.map_append, List.reverse_append]

end BackendMigration.Export
