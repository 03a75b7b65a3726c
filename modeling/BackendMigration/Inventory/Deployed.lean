import BackendMigration.Document.Encoding
import BackendMigration.Inventory.Extraction
import BackendMigration.Inventory.Listing
import BackendMigration.Recognition.Scan

/-! Functions deployed to a project, as its command-line client shows them. -/
namespace BackendMigration.Inventory

open Document (Value)

/-- What comes of a command of a client. -/
inductive ClientReply where
  /-- The command could not be run, or it failed. -/
  | failed
  /-- The command succeeded, and what it printed is not known. -/
  | silent
  | printed (text : String)
  deriving DecidableEq, Repr

/-- The text that a command printed. -/
def ClientReply.text? : ClientReply → Option String
  | printed text => some text
  | _ => none

/-- The command-line client of a project: its name, the seconds that a command may take, and what
comes of arguments. Names and arguments are texts, unless they come from settings that are none. -/
structure Client where
  program : Value
  timeout : Json
  reply : List Value → ClientReply

/-- The client's usual name. -/
def defaultProgram : String := "firebase"

/-- The seconds that a command may usually take. -/
def defaultTimeout : Int := 120

/-- The arguments that list the functions of a project. -/
def listArguments (project : Value) : List Value :=
  [.text "functions:list", .text "--project", project]

/-- The arguments that print the source of a function. -/
def sourceArguments (project : Value) (name : String) : List Value :=
  [.text "functions:code:get", .text name, .text "--project", project]

/-- How a project is called as a source. -/
def projectSource (project : Value) : String := "firebase:" ++ project.spelled

/-- The body of a function whose source cannot be had. -/
def placeholderBody (name : String) : String :=
  "\x7b\n  // Source for " ++ name ++ " could not be retrieved from the Firebase project.\n" ++
    "  // Port the deployed implementation here.\n\x7d"

/-- The rule named in records of listed functions without source. -/
def listingRule : String := "remote_inventory"

/-- The record of a listed function without source. -/
def placeholder (project : Value) (f : Listed) : FunctionRecord :=
  { name := f.name
    kind := classifyTrigger f.trigger
    body := placeholderBody f.name
    sourceFile := projectSource project
    rawMatch := f.trigger
    rule := listingRule
    url := f.url }

/-- The record of a function's own name in its source. -/
def fetchedRecord? (registry : Registry) (client : Client) (project : Value) (name : String) :
    Option FunctionRecord :=
  match (client.reply (sourceArguments project name)).text? with
  | none => none
  | some output =>
    (Recognition.scan registry output.toList (projectSource project ++ "/" ++ name)).find?
      (·.name == name)

def noSourceWarning (name : String) : String :=
  "Source for " ++ name ++ " unavailable; generating a placeholder"

def noListingWarning (project : Value) : String :=
  "Could not list functions for project " ++ project.spelled

/-- The record of a listed function, and the warnings it gives. -/
def listedRecord (registry : Registry) (client : Client) (project : Value) (f : Listed) :
    FunctionRecord × List String :=
  match fetchedRecord? registry client project f.name with
  | some r => ({ r with url := f.url }, [])
  | none => (placeholder project f, [noSourceWarning f.name])

/-- Find the functions deployed to a project. Also the arguments of the commands run. -/
def extractProject (registry : Registry) (client : Client) (project : Value)
    (period : Time.Period) : Extraction × List (List Value) :=
  let base : Extraction :=
    { source := projectSource project, period := some period, project := some project.shown }
  match (client.reply (listArguments project)).text? with
  | none => ({ base with warnings := [noListingWarning project] }, [listArguments project])
  | some output =>
    let listing := readListing output
    let found := listing.map (listedRecord registry client project)
    ({ base with records := found.map (·.1), warnings := found.flatMap (·.2) },
      listArguments project :: listing.map fun f => sourceArguments project f.name)

/-- A failed command is not told by its words: one of them is no text. -/
structure Untold where
  deriving DecidableEq, Repr

/-- Find the functions deployed to a project, with a client and a project of any kind. Where one of
them is no text, no command may fail. -/
def extractAny (registry : Registry) (client : Client) (project : Value) (period : Time.Period) :
    Except Untold (Extraction × List (List Value)) :=
  let (e, commands) := extractProject registry client project period
  let told := client.program.text?.isSome && project.text?.isSome
  if told || commands.all (client.reply · != .failed) then .ok (e, commands) else .error ⟨⟩

theorem name_listedRecord (registry : Registry) (client : Client) (project : Value)
    (f : Listed) : (listedRecord registry client project f).1.name = f.name := by
  unfold listedRecord
  cases h : fetchedRecord? registry client project f.name with
  | none => rfl
  | some r =>
    unfold fetchedRecord? at h
    split at h
    · cases h
    · have := List.find?_some h
      simpa using this

end BackendMigration.Inventory
