import BackendMigration.Decimal.Notation
import BackendMigration.Json.Basic
import BackendMigration.Text.Quoted

/-! Writing JSON. -/
namespace BackendMigration.Json

/-- How JSON is written. -/
structure Style where
  /-- Spaces for each level, one item to a line; without it all is on one line. -/
  indent : Option Nat
  /-- Characters beyond ASCII are escaped. -/
  ascii : Bool
  deriving DecidableEq, Repr

/-- A `\u` escape. -/
def unitEscape (n : Nat) : Text := '\\' :: 'u' :: Text.hex 4 n

/-- The escapes of a character: two for one beyond the first plane, unless it holds half of a
pair. -/
def charEscape (c : Char) : Text :=
  if c.toNat < 0x10000 then unitEscape c.toNat
  else if let some half := Text.half? c then unitEscape half
  else
    let n := c.toNat - 0x10000
    unitEscape (0xD800 + n / 0x400) ++ unitEscape (0xDC00 + n % 0x400)

/-- A character inside a string. -/
def writtenChar (ascii : Bool) (c : Char) : Text :=
  if c = '"' then ['\\', '"']
  else if c = '\\' then ['\\', '\\']
  else if c = '\n' then ['\\', 'n']
  else if c = '\r' then ['\\', 'r']
  else if c = '\t' then ['\\', 't']
  else if c = '\x0c' then ['\\', 'f']
  else if c = '\x08' then ['\\', 'b']
  else if c.toNat < 0x20 ∨ (ascii = true ∧ 0x7F ≤ c.toNat) then charEscape c
  else [c]

/-- A string in quotes. -/
def writtenString (ascii : Bool) (s : Text) : Text := '"' :: (s.flatMap (writtenChar ascii) ++ ['"'])

namespace Style

/-- The break before an item at a level. -/
def lineBreak (style : Style) (level : Nat) : Text :=
  match style.indent with
  | some n => '\n' :: List.replicate (n * level) ' '
  | none => []

/-- What stands between two items. -/
def separator (style : Style) (level : Nat) : Text :=
  match style.indent with
  | some _ => ',' :: style.lineBreak level
  | none => [',', ' ']

end Style

mutual

/-- The written form of a value at a level of nesting. -/
def renderAt (style : Style) (level : Nat) : Json → Text
  | null => "null".toList
  | bool true => "true".toList
  | bool false => "false".toList
  | int n => (toString n).toList
  | float x => Decimal.renderWith Decimal.spelled x
  | str s => writtenString style.ascii s.toList
  | arr [] => ['[', ']']
  | arr (x :: xs) =>
    '[' :: (style.lineBreak (level + 1) ++ renderAt style (level + 1) x ++
      renderItems style (level + 1) xs ++ style.lineBreak level ++ [']'])
  | obj [] => ['\x7b', '\x7d']
  | obj ((k, x) :: fs) =>
    '\x7b' :: (style.lineBreak (level + 1) ++ (writtenString style.ascii k.toList ++ [':', ' '] ++
      renderAt style (level + 1) x) ++ renderFields style (level + 1) fs ++
      style.lineBreak level ++ ['\x7d'])

/-- The items after the first. -/
def renderItems (style : Style) (level : Nat) : List Json → Text
  | [] => []
  | x :: xs => style.separator level ++ renderAt style level x ++ renderItems style level xs

/-- The fields after the first. -/
def renderFields (style : Style) (level : Nat) : List (String × Json) → Text
  | [] => []
  | (k, x) :: fs =>
    style.separator level ++ (writtenString style.ascii k.toList ++ [':', ' '] ++
      renderAt style level x) ++ renderFields style level fs

end

/-- The written form of a value. -/
def render (style : Style) (v : Json) : Text := renderAt style 0 v

end BackendMigration.Json
