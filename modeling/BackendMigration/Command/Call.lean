import BackendMigration.Command.Grammar
import BackendMigration.Environment
import BackendMigration.Export.Settings

/-! The commands, their arguments and their settings. -/
namespace BackendMigration.Command

/-- A command with its arguments: a settings file, and settings that go before those of the
file. -/
inductive Call where
  | functions (config : Option String) (settings : Keyed Json)
  | scan (file : String)
  | export (config : Option String) (settings : Keyed Json)
  | load (config : Option String) (settings : Keyed Json)
  deriving DecidableEq, Repr

def helpSwitch : Switch := ⟨["-h", "--help"], "help", .help, false⟩

/-- A switch with a value. -/
def valued (name key : String) (shape : Shape) : Switch := ⟨["--" ++ name], key, shape, false⟩

/-- A switch with a text. -/
def textual (name key : String) : Switch := valued name key .text

def configSwitch : Switch := textual "config" "config"

/-- The arguments before and of every command. -/
def mainGrammar : Grammar :=
  ⟨[helpSwitch, ⟨["--verbose", "-v"], "verbose", .flag, false⟩], .command⟩

/-- The arguments of `functions`: one source at most. -/
def functionsGrammar : Grammar :=
  ⟨[helpSwitch, configSwitch, ⟨["--source"], "source_dir", .text, true⟩,
      ⟨["--project"], "firebase_project", .text, true⟩, textual "output" "output_dir",
      textual "firebase-cli" "firebase_cli"], .none⟩

def scanGrammar : Grammar := ⟨[helpSwitch], .required "file"⟩

def exportGrammar : Grammar :=
  ⟨[helpSwitch, configSwitch, valued "batch-size" "batch_size" .number,
      valued "limit" "limit" .number,
      valued "include-subcollections" "include_subcollections" .flag,
      valued "max-depth" "max_depth" .number,
      valued "subcollection-limit" "subcollection_limit" .number,
      valued "subcollection-mode" "subcollection_mode"
        (.oneOf [Export.Mode.flatten.name, Export.Mode.nest.name]),
      textual "output" "output_dir", textual "credentials" "credentials_path",
      textual "project" "project_id", textual "hooks" "hooks_dir"], .optional "collection"⟩

def loadGrammar : Grammar :=
  ⟨[helpSwitch, configSwitch, textual "url" "supabase_url", textual "key" "service_role_key",
      valued "batch-size" "batch_size" .number, valued "dry-run" "dry_run" .flag,
      textual "on-conflict" "on_conflict"], .optional "input_dir"⟩

/-- The text of a setting. -/
def textOf? (key : String) (values : Keyed Json) : Option String :=
  match Keyed.get? key values with
  | some (.str s) => some s
  | _ => none

/-- Read the arguments of a command that has settings. -/
def readSettings (g : Grammar) (make : Option String → Keyed Json → Call) (args : List String) :
    Except Stop Call := do
  let r ← g.read args
  r.complete
  return make (textOf? "config" r.values) (Keyed.erase "config" r.values)

/-- Read the arguments of a command after its name. -/
def Call.ofCommand : List String → Except Stop Call
  | "functions" :: args => readSettings functionsGrammar .functions args
  | "scan" :: args => do
    let r ← scanGrammar.read args
    r.complete
    return .scan ((textOf? "file" r.values).getD "")
  | "export" :: args => readSettings exportGrammar .export args
  | "load" :: args => readSettings loadGrammar .load args
  | _ => .error .usage

/-- Read a command line. -/
def Call.read (args : List String) : Except Stop Call := do
  let r ← mainGrammar.read args
  let call ← ofCommand r.command
  r.complete
  return call

end BackendMigration.Command
