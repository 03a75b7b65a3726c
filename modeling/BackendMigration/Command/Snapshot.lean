import BackendMigration.Command.Run

/-! Commands on a snapshot of their surroundings. A snapshot and what becomes of it are JSON objects;
fields that are not there have their defaults. -/
namespace BackendMigration.Command

/-- The items of a list under a key; none if there is no list. -/
def itemsUnder (snapshot : Json) (key : String) : List Json :=
  match snapshot.field? key with
  | some (.arr items) => items
  | _ => []

/-- The fields of an object under a key; none if there is no object. -/
def fieldsUnder (snapshot : Json) (key : String) : List (String × Json) :=
  match snapshot.field? key with
  | some (.obj fields) => fields
  | _ => []

/-- A text is a file, and null a directory. -/
def nodeOf? : Json → Option File.Node
  | .str s => some (.file s.toUTF8)
  | .null => some .directory
  | _ => none

/-- The files under `files`, by their paths. -/
def snapshotFiles (snapshot : Json) : File.Tree :=
  File.Tree.ofFiles ((fieldsUnder snapshot "files").filterMap fun (path, v) =>
    (nodeOf? v).map (File.Path.ofText path, ·))

/-- The texts under `environment`, by the names of variables. -/
def snapshotEnvironment (snapshot : Json) : Environment :=
  (fieldsUnder snapshot "environment").filterMap fun (name, v) => v.text?.map (name, ·)

/-- What the client prints, under `client`: pairs of its arguments and a text. -/
def snapshotReply (snapshot : Json) (arguments : List Document.Value) : Inventory.ClientReply :=
  let printed := (itemsUnder snapshot "client").findSome? fun
    | .arr [.arr given, .str text] =>
      if given.map Json.text? = arguments.map Document.Value.text? then some text else none
    | _ => none
  (printed.map .printed).getD .failed

/-- The replies to requests, under `replies`: pairs of a status and a text, or why there is no
answer. -/
def snapshotReplies (snapshot : Json) : List Load.Reply :=
  (itemsUnder snapshot "replies").filterMap fun
    | .arr [.int status, .str text] => some (.answer status text)
    | .str message => some (.fault (.request message))
    | _ => none

/-- The number at a place of the list under `time`. -/
def timePart (snapshot : Json) (i default : Nat) : Nat :=
  match (itemsUnder snapshot "time")[i]? with
  | some (.int n) => n.toNat
  | _ => default

/-- The time under `time`: year, month, day, hour, minute, second and microsecond. -/
def snapshotTime (snapshot : Json) : Time.Timestamp :=
  let part := timePart snapshot
  ⟨⟨part 0 1970, part 1 1, part 2 1⟩, ⟨part 3 0, part 4 0, part 5 0, part 6 0⟩, none⟩

/-- The surroundings in a snapshot. A snapshot holds no document store. -/
def World.ofSnapshot (snapshot : Json) : World :=
  { files := snapshotFiles snapshot
    environment := snapshotEnvironment snapshot
    reply := snapshotReply snapshot
    replies := snapshotReplies snapshot
    id := ((snapshot.field? "id").bind Json.text?).getD ""
    period := ⟨snapshotTime snapshot, snapshotTime snapshot⟩ }

/-- What stands at a path: a text or null; bytes that are no text are in base 64. -/
def nodeJson : File.Node → Json
  | .directory => .null
  | .file bytes =>
    match Utf8.decode bytes with
    | .ok s => .str s
    | .error _ => .obj [("bytes", .str (String.ofList (Base64.encode bytes.toList)))]

/-- The JSON form of what comes of a command. -/
def Outcome.toJson (o : Outcome) : Json :=
  .obj
    [("exit", .int o.exit), ("printed", Json.ofText? o.printed),
      ("files", .obj (o.files.entries.map fun (p, n) => (p.text, nodeJson n))),
      ("commands", .arr (o.commands.map .arr))]

def Failure.message : Failure → String
  | settingsFile f => f.message
  | settingsText f text => f.message text
  | settingsShape _ => "Settings must be an object"
  | number f => f.message
  | scan f => f.message
  | migration f => f.message
  | .export f => f.message
  | load f => f.message

/-- Run a command line on the text of a snapshot: the exit code, and what becomes of the
snapshot. -/
def runSnapshot (args : List String) (text : String) : Nat × String :=
  match Json.read text.toList with
  | .error f => (exitFatal, f.message text.toList ++ "\n")
  | .ok snapshot =>
    match runLine (.ofSnapshot snapshot) args with
    | .error f => (exitFatal, f.message ++ "\n")
    | .ok o => (o.exit, printedJson o.toJson)

end BackendMigration.Command
