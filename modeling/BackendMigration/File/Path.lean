import BackendMigration.Text.Search

/-! Paths of files. -/
namespace BackendMigration.File

/-- A path: the names on the way, from the working directory or from the root. -/
structure Path where
  absolute : Bool := false
  names : List String
  deriving DecidableEq, Repr

namespace Path

/-- The working directory. -/
def here : Path := ⟨false, []⟩

/-- Read a path; empty names and single points are left out. -/
def ofText (s : String) : Path :=
  let names := ((Text.splitBy (· == '/') s.toList).filter fun n => !n.isEmpty && n != ['.']).map
    String.ofList
  ⟨s.toList.head? == some '/', names⟩

/-- Read a path as it stands: points stay, a slash at the end is a point after it, and the empty
path is an empty name. -/
def literal (s : String) : Path :=
  let pieces := Text.splitBy (· == '/') s.toList
  let names := (pieces.filter (!·.isEmpty)).map String.ofList
  if s.isEmpty then ⟨false, [""]⟩
  else
    ⟨s.toList.head? == some '/', names ++ (if pieces.getLast? == some [] then ["."] else [])⟩

/-- The written form; the working directory is a point. -/
def text (p : Path) : String :=
  if p.absolute then "/" ++ "/".intercalate p.names
  else if p.names.isEmpty then "."
  else "/".intercalate p.names

/-- A path from another path; an absolute one stands on its own. -/
def join (p q : Path) : Path := if q.absolute then q else ⟨p.absolute, p.names ++ q.names⟩

/-- The path of a name in a directory. -/
def child (p : Path) (name : String) : Path := ⟨p.absolute, p.names ++ [name]⟩

/-- The path without its last name. -/
def parent (p : Path) : Path := ⟨p.absolute, p.names.dropLast⟩

/-- Where a name leads to from a directory: a point stays there, and two points lead back. -/
def follow (p : Path) (name : String) : Path :=
  if name = "." then p else if name = ".." then p.parent else p.child name

/-- The last name. -/
def name (p : Path) : String := p.names.getLast?.getD ""

/-- A path is at or below another one. -/
def within (p root : Path) : Bool := p.absolute == root.absolute && root.names.isPrefixOf p.names

/-- The offset of the last point that is neither the first nor the last character of a name. -/
def suffixStart? (name : String) : Option Nat :=
  let cs := name.toList
  let tail := cs.reverse.takeWhile (· != '.')
  if tail.length < cs.length && !tail.isEmpty && tail.length + 1 < cs.length then
    some (cs.length - tail.length - 1)
  else none

/-- The part of a name from its last point on; empty if there is none. -/
def suffix (name : String) : String :=
  match suffixStart? name with
  | some n => String.ofList (name.toList.drop n)
  | none => ""

/-- The part of a name before its last point. -/
def stem (name : String) : String :=
  match suffixStart? name with
  | some n => String.ofList (name.toList.take n)
  | none => name

@[simp] theorem parent_child (p : Path) (name : String) : (p.child name).parent = p := by
  simp [parent, child]

@[simp] theorem name_child (p : Path) (name : String) : (p.child name).name = name := by
  simp [Path.name, child]

end Path
end BackendMigration.File
