import BackendMigration.EdgeFunction.Generator
import BackendMigration.File.Contents
import BackendMigration.Json.Printer

/-! Writing edge functions, each to a directory of its own that appears complete or not at all. -/
namespace BackendMigration.Migration

def codeName : String := "index.ts"

def manifestName : String := "deno.json"

def triggerName : String := "trigger.sql"

/-- How a manifest is written. -/
def manifestText (u : GeneratedUnit) : Except String String :=
  .ok (String.ofList (Json.render ⟨some 2, true⟩ u.manifest) ++ "\n")

/-- The name of a directory in which a function is put together, the `n`th one that is tried. -/
def stagingName (name : String) (n : Nat) : String := "." ++ name ++ "-" ++ toString n

/-- A directory for putting a function together: the first name under which nothing stands. -/
def stagingPath (t : File.Tree) (out : File.Path) (name : String) : File.Path :=
  let path (n : Nat) : File.Path := out.join (.ofText (stagingName name n))
  path (((List.range t.entries.length).find? fun n => !t.hasPath (path n)).getD t.entries.length)

/-- The directory of a function. -/
def unitPath (out : File.Path) (name : String) : File.Path := out.join (.ofText name)

/-- Write one file into a directory. -/
def putFile (t : File.Tree) (p : File.Path) (name text : String) : Except String File.Tree :=
  match t.writeText (p.child name) text.toList with
  | (.ok (), t) => .ok t
  | (.error f, _) => .error f.message

/-- Write the files of a function into a directory. -/
def fillUnit (write : GeneratedUnit → Except String String) (t : File.Tree) (p : File.Path)
    (u : GeneratedUnit) : Except String File.Tree := do
  let t ← putFile t p codeName u.code
  let t ← putFile t p manifestName (← write u)
  match u.companionSql.filter fun s => !s.isEmpty with
  | some sql => putFile t p triggerName sql
  | none => return t

/-- Write a function to its directory, in place of what stands there. If it cannot be put together the
directory stays as it was. -/
def writeUnit (write : GeneratedUnit → Except String String) (t : File.Tree) (out : File.Path)
    (u : GeneratedUnit) : Except String File.Path × File.Tree :=
  match t.makeDirectories out with
  | .error f => (.error f.message, t)
  | .ok t =>
    let staging := stagingPath t out u.name
    match t.makeDirectory staging with
    | .error f => (.error f.message, t)
    | .ok staged =>
      match fillUnit write staged staging u with
      | .error message => (.error message, t)
      | .ok filled =>
        let target := unitPath out u.name
        let (removed, cleared) :=
          if filled.isDirectory target then filled.removeDirectory target
          else (.ok (), filled.remove target)
        match removed with
        | .error message => (.error message, cleared.remove staging)
        | .ok () =>
          if cleared.isDirectory staging then (.ok target, cleared.move staging target)
          else (.error (File.Fault.message ⟨.notFound, staging.text⟩), cleared)

end BackendMigration.Migration
