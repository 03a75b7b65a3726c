import BackendMigration.Json.Basic
import BackendMigration.Text.Integer
import BackendMigration.Text.Search

/-! Reading command-line arguments by a grammar of switches and operands. -/
namespace BackendMigration.Command

/-- What a switch takes. -/
inductive Shape where
  | flag
  /-- Asks for help instead of a run. -/
  | help
  | text
  | number
  | oneOf (names : List String)
  deriving DecidableEq, Repr

def Shape.takesValue : Shape → Bool
  | flag | help => false
  | _ => true

/-- A switch: its names, the setting that it gives, and whether it excludes the other switches
that are exclusive. -/
structure Switch where
  names : List String
  key : String
  shape : Shape
  exclusive : Bool := false
  deriving DecidableEq, Repr

/-- The argument that is no switch. -/
inductive Operand where
  | none
  | required (key : String)
  | optional (key : String)
  /-- A command; it takes all arguments from its name on. -/
  | command
  deriving DecidableEq, Repr

structure Grammar where
  switches : List Switch
  operand : Operand := .none
  deriving DecidableEq, Repr

/-- Why arguments lead to no run. -/
inductive Stop where
  | help
  | usage
  deriving DecidableEq, Repr

/-- What an argument looks like. -/
inductive Token where
  | word
  /-- Two dashes; all after it are words. -/
  | separator
  /-- A switch, whether by a long name, and the value attached to it. -/
  | switch (s : Switch) (long : Bool) (value : Option (List Char))
  | unknown
  deriving DecidableEq, Repr

/-- An argument and what it looks like. -/
abbrev Argument := String × Token

/-- A minus and digits, with a point or without; a line feed may follow. -/
def isNegativeNumber (t : Text) : Bool :=
  match if t.getLast? = some '\n' then t.dropLast else t with
  | '-' :: r =>
    let (whole, rest) := r.span Text.isDecimal
    match rest with
    | [] => !whole.isEmpty
    | '.' :: fraction => !fraction.isEmpty && fraction.all Text.isDecimal
    | _ => false
  | _ => false

/-- A name is a long one. -/
def isLong (name : Text) : Bool := ['-', '-'].isPrefixOf name

namespace Grammar

/-- The switch of a name. -/
def named? (g : Grammar) (name : Text) : Option Switch :=
  g.switches.find? fun s => s.names.any fun n => n.toList == name

/-- The switches that an argument abbreviates, one for each name that fits; a short name may have a
value right after it. -/
def candidates (g : Grammar) (t : Text) : List Token :=
  let names := g.switches.flatMap fun s => s.names.map fun n => (s, n.toList)
  if isLong t then
    let (start, value) := match Text.cutAt? '=' t with
      | some (start, value) => (start, some value)
      | none => (t, none)
    names.filterMap fun (s, n) => if start.isPrefixOf n then some (.switch s true value) else none
  else
    names.filterMap fun (s, n) =>
      if n = t.take 2 then some (.switch s false (some (t.drop 2)))
      else if t.isPrefixOf n then some (.switch s (isLong n) none)
      else none

/-- The switch that an argument names in full. -/
def fullName? (g : Grammar) (t : Text) : Option Token :=
  match g.named? t, Text.cutAt? '=' t with
  | some s, _ => some (.switch s (isLong t) none)
  | none, some (name, value) => (g.named? name).map fun s => .switch s (isLong name) (some value)
  | none, none => none

/-- What an argument looks like; an ambiguous abbreviation is refused. -/
def classify (g : Grammar) (argument : String) : Except Stop Token :=
  let t := argument.toList
  match t with
  | '-' :: _ :: _ =>
    match g.fullName? t, g.candidates t with
    | some token, _ => .ok token
    | none, [token] => .ok token
    | none, _ :: _ :: _ => .error .usage
    | none, [] => .ok (if isNegativeNumber t || t.contains ' ' then .word else .unknown)
  | _ => .ok .word

/-- What arguments look like. -/
def arguments (g : Grammar) : List String → Except Stop (List Argument)
  | [] => .ok []
  | s :: rest =>
    if s = "--" then .ok ((s, .separator) :: rest.map fun w => (w, .word))
    else do
      let token ← g.classify s
      return (s, token) :: (← arguments g rest)

end Grammar

/-- What has been read: settings, the operand still to come, the command, and what belongs to
nothing. -/
structure Reading where
  values : Keyed Json := []
  operand : Operand
  command : List String := []
  extras : List String := []
  deriving DecidableEq, Repr

/-- The value that a text gives a switch. -/
def Shape.value (shape : Shape) (s : String) : Except Stop Json :=
  match shape with
  | .number =>
    match Text.readInteger s.toList with
    | .ok n => .ok (.int n)
    | .error _ => .error .usage
  | .oneOf names => if s ∈ names then .ok (.str s) else .error .usage
  | _ => .ok (.str s)

/-- Give a switch its effect. -/
def Reading.assign (r : Reading) (g : Grammar) (s : Switch) (value : Option String) :
    Except Stop Reading :=
  match s.shape, value with
  | .help, _ => .error .help
  | .flag, _ => .ok { r with values := Keyed.set s.key (.bool true) r.values }
  | shape, some text => do
    let v ← shape.value text
    let excludes (other : Switch) : Bool :=
      other.exclusive && other.key != s.key && Keyed.has other.key r.values
    if s.exclusive && g.switches.any excludes then .error .usage
    else return { r with values := Keyed.set s.key v r.values }
  | _, none => .error .usage

/-- The switches in an argument with something attached: a value, or the letters of more switches.
The last one may still need a value. -/
def attached (g : Grammar) (s : Switch) (long : Bool) :
    List Char → Except Stop (List (Switch × Option String) × Option Switch)
  | [] => if s.shape.takesValue then .ok ([(s, some "")], none) else .error .usage
  | c :: rest =>
    if s.shape.takesValue then .ok ([(s, some (String.ofList (c :: rest)))], none)
    else if long then .error .usage
    else
      match g.named? ['-', c], rest with
      | none, _ => .error .usage
      | some next, [] =>
        if next.shape.takesValue then .ok ([(s, none)], some next)
        else .ok ([(s, none), (next, none)], none)
      | some next, _ :: _ => do
        let (more, waiting) ← attached g next false rest
        return ((s, none) :: more, waiting)

/-- A switch that waits for a value takes the next word. -/
def takeValue (s : Switch) : List Argument → Except Stop ((Switch × Option String) × List Argument)
  | (w, .word) :: rest => .ok ((s, some w), rest)
  | _ => .error .usage

/-- The effects of a switch, and the arguments after it. -/
def takeSwitch (g : Grammar) (s : Switch) (long : Bool) (value : Option (List Char))
    (rest : List Argument) : Except Stop (List (Switch × Option String) × List Argument) :=
  match value with
  | some v => do
    match ← attached g s long v with
    | (effects, none) => return (effects, rest)
    | (effects, some waiting) =>
      let (effect, rest) ← takeValue waiting rest
      return (effects ++ [effect], rest)
  | none =>
    if s.shape.takesValue then do
      let (effect, rest) ← takeValue s rest
      return ([effect], rest)
    else .ok ([(s, none)], rest)

def dropSeparators (as : List Argument) : List Argument := as.dropWhile (·.2 == .separator)

/-- Take the operand from the front of arguments; none if it is not there. -/
def Reading.takeOperand? (r : Reading) (as : List Argument) :
    Except Stop (Option (Reading × List Argument)) :=
  match r.operand, dropSeparators as with
  | .required key, (w, .word) :: rest =>
    .ok (some ({ r with operand := .none, values := Keyed.set key (.str w) r.values },
      dropSeparators rest))
  | .optional key, (w, .word) :: rest =>
    .ok (some ({ r with operand := .none, values := Keyed.set key (.str w) r.values },
      dropSeparators rest))
  | .optional _, rest =>
    .ok (if rest.length = as.length then none else some ({ r with operand := .none }, rest))
  | .command, (_, .word) :: _ =>
    match as with
    | (_, .word) :: _ => .ok (some ({ r with operand := .none, command := as.map (·.1) }, []))
    | _ => .error .usage
  | _, _ => .ok none

/-- The argument is or looks like a switch. -/
def isSwitch : Argument → Bool
  | (_, .switch ..) => true
  | (_, .unknown) => true
  | _ => false

/-- Read arguments, at most `steps` times a switch or an operand. -/
def readArguments (g : Grammar) : (steps : Nat) → Reading → List Argument → Except Stop Reading
  | 0, r, _ => .ok r
  | steps + 1, r, as =>
    match as with
    | (raw, .unknown) :: rest => readArguments g steps { r with extras := r.extras ++ [raw] } rest
    | (_, .switch s long value) :: rest => do
      let (effects, rest) ← takeSwitch g s long value rest
      let r ← effects.foldlM (fun r (s, v) => r.assign g s v) r
      readArguments g steps r rest
    | as => do
      match ← r.takeOperand? as with
      | some (r, rest) => readArguments g steps r rest
      | none =>
        let (words, rest) := as.span fun a => !isSwitch a
        let r := { r with extras := r.extras ++ words.map (·.1) }
        match rest with
        | [] => return r
        | rest => readArguments g steps r rest

/-- The settings and the command that arguments give. -/
def Grammar.read (g : Grammar) (args : List String) : Except Stop Reading := do
  let as ← g.arguments args
  let r ← readArguments g (2 * as.length + 1) { operand := g.operand } as
  match r.operand with
  | .required _ => .error .usage
  | _ => return r

/-- Every argument has to belong to something. -/
def Reading.complete (r : Reading) : Except Stop Unit :=
  if r.extras.isEmpty then .ok () else .error .usage

end BackendMigration.Command
