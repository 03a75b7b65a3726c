import BackendMigration.File.Path
import BackendMigration.Text.Utf8

/-! A tree of files and directories as a value. -/
namespace BackendMigration.File

/-- What stands at a path. -/
inductive Node where
  | directory
  | file (bytes : ByteArray)

instance : DecidableEq Node
  | .directory, .directory => isTrue rfl
  | .directory, .file _ | .file _, .directory => isFalse Node.noConfusion
  | .file a, .file b =>
    if h : a.data = b.data then isTrue (congrArg Node.file (ByteArray.ext h))
    else isFalse fun e => h (congrArg ByteArray.data (Node.file.inj e))

/-- Why a file operation fails. -/
inductive Cause where
  | notFound
  | exists
  | notDirectory
  | isDirectory
  | nameTooLong
  /-- The path has a null character. -/
  | nullCharacter
  /-- The path has no bytes. -/
  | unwritable (u : Utf8.Unwritable)
  deriving DecidableEq, Repr

/-- The text is the path of no file, whatever files there are. -/
def Cause.isImpossible : Cause → Bool
  | nullCharacter | unwritable _ => true
  | _ => false

/-- A failed file operation: why, and at which path as it was given. -/
structure Fault where
  cause : Cause
  path : String
  deriving DecidableEq, Repr

def Cause.message : Cause → String
  | .notFound => "[Errno 2] No such file or directory"
  | .exists => "[Errno 17] File exists"
  | .notDirectory => "[Errno 20] Not a directory"
  | .isDirectory => "[Errno 21] Is a directory"
  | .nameTooLong => "[Errno 36] File name too long"
  | .nullCharacter => "embedded null byte"
  | .unwritable u => u.message

def Fault.message (f : Fault) : String :=
  f.cause.message ++
    (if f.cause.isImpossible then "" else ": " ++ String.ofList (Text.quoted f.path.toList))

/-- A half of a pair that stands for a byte. -/
def isByteHalf (c : Char) : Bool :=
  match Text.half? c with
  | some unit => 0xDC80 ≤ unit && unit < 0xDD00
  | none => false

/-- The first stretch of a path that has no bytes. -/
def unwritable? (path : Text) : Option Utf8.Unwritable :=
  let before := path.takeWhile fun c => (Text.half? c).isNone || isByteHalf c
  (Utf8.unwritable? (path.drop before.length)).map fun u =>
    { u with offset := u.offset + before.length }

/-- A name has at most this many bytes. -/
def nameLimit : Nat := 255

/-- A path has fewer bytes than this. -/
def pathLimit : Nat := 4096

/-- What is wrong with a path whatever files there are. -/
def pathCause? (path : String) : Option Cause :=
  match unwritable? path.toList with
  | some u => some (.unwritable u)
  | none =>
    if path.toList.contains '\x00' then some .nullCharacter
    else if pathLimit ≤ path.utf8ByteSize then some .nameTooLong
    else none

/-- Files and directories by their paths. The working directory and the root are always there. -/
structure Tree where
  entries : List (Path × Node)
  deriving DecidableEq

namespace Tree

def empty : Tree := ⟨[]⟩

/-- What stands at a path that has no points. -/
def node? (t : Tree) (p : Path) : Option Node :=
  if p.names.isEmpty then some .directory else (t.entries.find? (·.1 == p)).map (·.2)

/-- Put a node at a path, in place of what stands there. -/
def setNode (t : Tree) (p : Path) (n : Node) : Tree :=
  ⟨t.entries.filter (·.1 != p) ++ [(p, n)]⟩

/-- Follow names from a directory; each but the last has to name a directory. -/
def resolveFrom (t : Tree) (p : Path) : List String → Except Cause Path
  | [] => .ok p
  | n :: r =>
    match t.node? p with
    | none => .error .notFound
    | some (.file _) => .error .notDirectory
    | some .directory =>
      if nameLimit < n.utf8ByteSize then .error .nameTooLong else resolveFrom t (p.follow n) r

/-- The path without points that a path leads to. -/
def resolve (t : Tree) (p : Path) : Except Cause Path :=
  match pathCause? p.text with
  | some cause => .error cause
  | none => resolveFrom t ⟨p.absolute, []⟩ p.names

/-- What stands at a path; nothing if no such path leads anywhere. -/
def lookup? (t : Tree) (p : Path) : Option Node :=
  match t.resolve p with
  | .ok q => t.node? q
  | .error _ => none

def isDirectory (t : Tree) (p : Path) : Bool := t.lookup? p == some .directory

def isFile (t : Tree) (p : Path) : Bool :=
  match t.lookup? p with
  | some (.file _) => true
  | _ => false

def hasPath (t : Tree) (p : Path) : Bool := (t.lookup? p).isSome

/-- The names in a directory, in no particular order. -/
def childNames (t : Tree) (p : Path) : List String :=
  match t.resolve p with
  | .ok q => t.entries.filterMap fun e =>
      if e.1.parent = q ∧ e.1.names ≠ [] then some e.1.name else none
  | .error _ => []

/-- A fault at a path. -/
def faultAt {α : Type} (p : Path) (cause : Cause) : Except Fault α := .error ⟨cause, p.text⟩

/-- The path that a path leads to, for an operation that has to reach it. -/
def reach (t : Tree) (p : Path) : Except Fault Path :=
  match t.resolve p with
  | .ok q => .ok q
  | .error cause => faultAt p cause

/-- The bytes of a file. -/
def read (t : Tree) (p : Path) : Except Fault ByteArray := do
  match t.node? (← t.reach p) with
  | some (.file bytes) => .ok bytes
  | some .directory => faultAt p .isDirectory
  | none => faultAt p .notFound

/-- Write a file, in place of one that is there. -/
def write (t : Tree) (p : Path) (bytes : ByteArray) : Except Fault Tree := do
  let q ← t.reach p
  match t.node? q with
  | some .directory => faultAt p .isDirectory
  | _ =>
    match t.node? q.parent with
    | some .directory => .ok (t.setNode q (.file bytes))
    | some (.file _) => faultAt p .notDirectory
    | none => faultAt p .notFound

/-- Add bytes at the end of a file; a new file begins with them. -/
def append (t : Tree) (p : Path) (bytes : ByteArray) : Except Fault Tree :=
  match t.read p with
  | .ok before => t.write p (before ++ bytes)
  | .error _ => t.write p bytes

/-- Make a directory. -/
def makeDirectory (t : Tree) (p : Path) : Except Fault Tree := do
  let q ← t.reach p
  match t.node? q with
  | some _ => faultAt p .exists
  | none => .ok (t.setNode q .directory)

/-- Make a directory and those on the way to it; a directory that is there is kept. `names` are the
names of the path backwards. -/
def makeDirectoriesFrom (t : Tree) (absolute : Bool) : List String → Except Fault Tree
  | [] => .ok t
  | n :: r =>
    let p : Path := ⟨absolute, (n :: r).reverse⟩
    match t.makeDirectory p with
    | .ok t' => .ok t'
    | .error ⟨.notFound, _⟩ => do
      let t' ← makeDirectoriesFrom t absolute r
      match t'.makeDirectory p with
      | .ok t'' => .ok t''
      | .error f => if t'.isDirectory p then .ok t' else .error f
    | .error f => if t.isDirectory p then .ok t else .error f

/-- Make a directory and those on the way to it; a directory that is there is kept. -/
def makeDirectories (t : Tree) (p : Path) : Except Fault Tree :=
  t.makeDirectoriesFrom p.absolute p.names.reverse

/-- Take away what stands at a path and below it. -/
def remove (t : Tree) (p : Path) : Tree :=
  match t.resolve p with
  | .ok q => ⟨t.entries.filter fun e => !e.1.within q⟩
  | .error _ => t

/-- Take away what stands below a path. -/
def clear (t : Tree) (p : Path) : Tree :=
  match t.resolve p with
  | .ok q => ⟨t.entries.filter fun e => !e.1.within q || e.1 == q⟩
  | .error _ => t

/-- Why an empty directory is not taken away. -/
inductive RemovalCause where
  /-- The path does not lead to it any more. -/
  | notFound
  /-- It is the root. -/
  | busy
  /-- It is the working directory. -/
  | invalid
  /-- The path ends in two points. -/
  | notEmpty
  deriving DecidableEq, Repr

def RemovalCause.message : RemovalCause → String
  | .notFound => Cause.notFound.message
  | .busy => "[Errno 16] Device or resource busy"
  | .invalid => "[Errno 22] Invalid argument"
  | .notEmpty => "[Errno 39] Directory not empty"

/-- Why an empty directory is not taken away by a path; what that leads through may have been below the
directory. -/
def removalCause? (t : Tree) (p : Path) : Option RemovalCause :=
  match p.names.getLast? with
  | none => some (if p.absolute then .busy else .invalid)
  | some name =>
    if name = ".." then some (if t.isDirectory p.parent then .notEmpty else .notFound)
    else if t.isDirectory p then none
    else some .notFound

/-- Empty a directory and take it away; if that fails there is a message. What was in it is lost also
where it stays. -/
def removeDirectory (t : Tree) (p : Path) : Except String Unit × Tree :=
  let emptied := t.clear p
  match emptied.removalCause? p with
  | some cause =>
    (.error (cause.message ++ ": " ++ String.ofList (Text.quoted p.text.toList)), emptied)
  | none => (.ok (), emptied.remove p)

/-- Move what stands at a path and below it to a path where nothing stands. -/
def move (t : Tree) (p q : Path) : Tree :=
  match t.resolve p, t.resolve q with
  | .ok p', .ok q' =>
    ⟨t.entries.map fun e =>
      if e.1.within p' then (⟨q'.absolute, q'.names ++ e.1.names.drop p'.names.length⟩, e.2) else e⟩
  | _, _ => t

/-- A tree of given files and empty directories, with the directories on the way to them. -/
def ofFiles (files : List (Path × Node)) : Tree :=
  files.foldl (fun t f =>
    match f.2 with
    | .directory => ((t.makeDirectories f.1).toOption).getD t
    | .file bytes =>
      let t := ((t.makeDirectories f.1.parent).toOption).getD t
      ((t.write f.1 bytes).toOption).getD t) empty

theorem node?_setNode {t : Tree} {p q : Path} {n : Node} (h : q.names ≠ []) :
    (t.setNode p n).node? q = if q = p then some n else t.node? q := by
  have hq : q.names.isEmpty = false := by simpa using h
  simp only [node?, hq, setNode, Bool.false_eq_true, if_false, List.find?_append]
  by_cases hp : q = p
  · subst hp
    have : (t.entries.filter (·.1 != q)).find? (·.1 == q) = none := by
      rw [List.find?_eq_none]
      intro e he
      simpa using (List.mem_filter.1 he).2
    simp [this]
  · have hf : (t.entries.filter (·.1 != p)).find? (·.1 == q) = t.entries.find? (·.1 == q) := by
      induction t.entries with
      | nil => rfl
      | cons e r ih =>
        by_cases he : e.1 = p
        · have : ¬e.1 = q := fun h' => hp (h'.symm.trans he)
          simp [he, ih, show ¬p = q from fun h' => hp h'.symm]
        · by_cases he' : e.1 = q
          · simp [he', hp]
          · have hb : (e.1 == q) = false := by simpa using he'
            simp [he, hb, ih]
    have hpq : ¬p = q := fun h' => hp h'.symm
    simp [hf, hp, hpq]

end Tree
end BackendMigration.File
