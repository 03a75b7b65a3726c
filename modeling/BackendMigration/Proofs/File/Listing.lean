import BackendMigration.Proofs.File.Closed
import BackendMigration.Proofs.File.Filled
import Mathlib.Data.List.Nodup

/-! The names in a directory. -/
namespace BackendMigration.File

theorem Path.eq_child_of_ne_nil {p : Path} (h : p.names ≠ []) : p = p.parent.child p.name := by
  obtain ⟨absolute, names⟩ := p
  have hnames : names.dropLast ++ [names.getLast h] = names := List.dropLast_append_getLast h
  have hlast : names.getLast?.getD "" = names.getLast h := by
    rw [List.getLast?_eq_some_getLast h, Option.getD_some]
  simp only [Path.child, Path.parent, Path.name, hlast, hnames]

namespace Tree

variable {t t' : Tree} {p q place : Path} {n : Node} {name : String}

/-- The names of the paths in a directory. -/
def namesAt (t : Tree) (place : Path) : List String :=
  t.entries.filterMap fun e =>
    if e.1.parent = place ∧ e.1.names ≠ [] then some e.1.name else none

theorem mem_namesAt : name ∈ t.namesAt place ↔ t.node? (place.child name) ≠ none := by
  have hne : (place.child name).names ≠ [] := by simp [Path.child]
  simp only [namesAt, List.mem_filterMap]
  constructor
  · rintro ⟨e, he, hname⟩
    split at hname
    · rename_i hin
      have hpath := Path.eq_child_of_ne_nil hin.2
      rw [hin.1, Option.some.inj hname] at hpath
      rw [← hpath]
      exact node?_ne_none_of_mem he
    · cases hname
  · intro hnode
    rw [node?_of_ne_nil hne, ne_eq, Option.map_eq_none_iff] at hnode
    obtain ⟨e, he⟩ := Option.ne_none_iff_exists'.1 hnode
    have hpath : e.1 = place.child name := by simpa using List.find?_some he
    refine ⟨e, List.mem_of_find?_eq_some he, ?_⟩
    rw [hpath, Path.parent_child, Path.name_child, if_pos ⟨rfl, hne⟩]

theorem childNames_of_resolve (hp : t.resolve p = .ok place) :
    t.childNames p = t.namesAt place := by
  rw [childNames, hp, namesAt]

/-- The names in a directory are those of the paths in it at which something stands. -/
theorem mem_childNames (hp : t.resolve p = .ok place) :
    name ∈ t.childNames p ↔ t.node? (place.child name) ≠ none := by
  rw [childNames_of_resolve hp, mem_namesAt]

/-! Trees that have one node at each path. -/

def Distinct (t : Tree) : Prop := (t.entries.map (·.1)).Nodup

theorem distinct_empty : empty.Distinct := List.nodup_nil

/-- Then each name in a directory is told once. -/
theorem Distinct.nodup_namesAt (h : t.Distinct) (place : Path) : (t.namesAt place).Nodup := by
  refine List.Pairwise.filterMap _ (fun a b hab x hx y hy => ?_) (List.pairwise_map.1 h)
  rintro rfl
  split at hx
  · split at hy
    · rename_i ha hb
      refine hab ?_
      rw [Path.eq_child_of_ne_nil ha.2, Path.eq_child_of_ne_nil hb.2, ha.1, hb.1,
        Option.some.inj hx, Option.some.inj hy]
    · cases hy
  · cases hx

theorem Distinct.nodup_childNames (h : t.Distinct) (p : Path) : (t.childNames p).Nodup := by
  cases hp : t.resolve p with
  | ok place => exact childNames_of_resolve hp ▸ h.nodup_namesAt place
  | error cause =>
    rw [childNames, hp]
    exact List.nodup_nil

/-- At each path but the root stands what its one entry says. -/
theorem Distinct.node?_of_mem (h : t.Distinct) {e : Path × Node} (he : e ∈ t.entries)
    (hne : e.1.names ≠ []) : t.node? e.1 = some e.2 := by
  obtain ⟨found, hfound⟩ := Option.ne_none_iff_exists'.1 (node?_ne_none_of_mem he)
  rw [node?_of_ne_nil hne] at hfound ⊢
  obtain ⟨e', he', hnode⟩ := Option.map_eq_some_iff.1 hfound
  have hpath : e'.1 = e.1 := by simpa using List.find?_some he'
  have hsame : e' = e :=
    List.inj_on_of_nodup_map h (List.mem_of_find?_eq_some he') he hpath
  rw [he', hsame]
  rfl

theorem exists_mem_of_node? {n : Node} (hn : t.node? p = some n) (hne : p.names ≠ []) :
    (p, n) ∈ t.entries := by
  rw [node?_of_ne_nil hne] at hn
  obtain ⟨e, he, rfl⟩ := Option.map_eq_some_iff.1 hn
  have hpath : e.1 = p := by simpa using List.find?_some he
  have hmem := List.mem_of_find?_eq_some he
  rwa [← hpath]

theorem Distinct.setNode (h : t.Distinct) (p : Path) (n : Node) : (t.setNode p n).Distinct := by
  unfold Distinct Tree.setNode
  rw [List.map_append, List.nodup_append]
  refine ⟨?_, List.pairwise_singleton _ _, fun a ha b hb => ?_⟩
  · exact h.sublist (List.filter_sublist.map _)
  · obtain ⟨e, he, rfl⟩ := List.mem_map.1 ha
    have hne := (List.mem_filter.1 he).2
    obtain rfl : b = p := by simpa using hb
    simpa using hne

theorem lasting_distinct : Lasting Distinct := by
  constructor
  · intro u u' q h hm
    obtain ⟨-, -, rfl⟩ := exists_of_makeDirectory hm
    exact h.setNode _ _
  · intro u u' q bytes h hw
    obtain ⟨goal, hgoal⟩ := receives_of_write hw
    rw [hgoal.write] at hw
    cases hw
    exact h.setNode _ _

/-- A tree of given files is distinct. -/
theorem distinct_ofFiles (files : List (Path × Node)) : (ofFiles files).Distinct :=
  lasting_distinct.ofFiles distinct_empty files

end Tree
end BackendMigration.File
