import BackendMigration.Decimal.Notation
import BackendMigration.Json.Basic
import BackendMigration.Text.Integer
import BackendMigration.Text.Lines
import BackendMigration.Text.Quoted

/-! The lexemes of a JSON text, and what can be wrong with it. -/
namespace BackendMigration.Json

/-- What makes a text no JSON text. -/
inductive Cause where
  | expectedValue
  | expectedComma
  | expectedColon
  | expectedKey
  | extraData
  | unterminatedString
  | controlCharacter
  | badEscape
  | badUnicodeEscape
  | byteOrderMark
  /-- A whole number has more digits than are read. -/
  | overlongInteger (digits : Nat)
  /-- Arrays or objects are nested too deeply. -/
  | deepArray
  | deepObject
  deriving DecidableEq, Repr

/-- What a cause is about: the text is no JSON, a number cannot be read, or there is too
much to keep track of. -/
inductive Category where
  | form
  | number
  | depth
  deriving DecidableEq, Repr

def Cause.category : Cause → Category
  | overlongInteger _ => .number
  | deepArray | deepObject => .depth
  | _ => .form

/-- A fault: what is wrong, and at which offset of the text. -/
structure Fault where
  cause : Cause
  offset : Nat
  deriving DecidableEq, Repr

def Cause.message : Cause → String
  | expectedValue => "Expecting value"
  | expectedComma => "Expecting ',' delimiter"
  | expectedColon => "Expecting ':' delimiter"
  | expectedKey => "Expecting property name enclosed in double quotes"
  | extraData => "Extra data"
  | unterminatedString => "Unterminated string starting at"
  | controlCharacter => "Invalid control character at"
  | badEscape => "Invalid \\escape"
  | badUnicodeEscape => "Invalid \\uXXXX escape"
  | byteOrderMark => "Unexpected UTF-8 BOM (decode using utf-8-sig)"
  | overlongInteger digits => Text.overlongMessage digits
  | deepArray => "maximum recursion depth exceeded while decoding a JSON array from a unicode string"
  | deepObject =>
    "maximum recursion depth exceeded while decoding a JSON object from a unicode string"

/-- The message for a fault in a text; where the text is no JSON, with line, column and offset. -/
def Fault.message (f : Fault) (t : Text) : String :=
  match f.cause.category with
  | .form =>
    let (line, column) := Text.lineColumn t f.offset
    f.cause.message ++ ": line " ++ toString line ++ " column " ++ toString column ++
      " (char " ++ toString f.offset ++ ")"
  | _ => f.cause.message

/-- The smallest parts of a JSON text. -/
inductive Token where
  | openArray
  | closeArray
  | openObject
  | closeObject
  | comma
  | colon
  | text (s : Text)
  /-- A number or a named value. -/
  | scalar (v : Json)
  /-- A whole number with too many digits. -/
  | overlong (digits : Nat)
  /-- A string that cannot be read. -/
  | faulty (f : Fault)
  /-- A character that begins no token. -/
  | stray
  deriving DecidableEq, Repr

/-- A token and the offset at which it starts. -/
structure Lexeme where
  token : Token
  offset : Nat
  deriving DecidableEq, Repr

def isSpace (c : Char) : Bool := c == ' ' || c == '\t' || c == '\n' || c == '\r'

/-- The value of a hexadecimal digit. -/
def hexValue? (c : Char) : Option Nat :=
  if '0' ≤ c ∧ c ≤ '9' then some (c.toNat - 48)
  else if 'a' ≤ c ∧ c ≤ 'f' then some (c.toNat - 87)
  else if 'A' ≤ c ∧ c ≤ 'F' then some (c.toNat - 55)
  else none

/-- The number that four hexadecimal digits write. -/
def hexQuad? (a b c d : Char) : Option Nat := do
  let a ← hexValue? a
  let b ← hexValue? b
  let c ← hexValue? c
  let d ← hexValue? d
  return ((a * 16 + b) * 16 + c) * 16 + d

/-- The character of a short escape. -/
def shortEscape? : Char → Option Char
  | '"' => some '"'
  | '\\' => some '\\'
  | '/' => some '/'
  | 'b' => some '\x08'
  | 'f' => some '\x0c'
  | 'n' => some '\n'
  | 'r' => some '\r'
  | 't' => some '\t'
  | _ => none

/-- A piece of a string: a character as it stands or by a short escape, or a `\u` escape. -/
inductive Piece where
  | char (c : Char)
  | unit (n : Nat)
  deriving DecidableEq, Repr

/-- The text of pieces. Two escapes that make a pair are one character. -/
def joinPieces : List Piece → Text
  | [] => []
  | .char c :: r => c :: joinPieces r
  | .unit high :: .unit low :: r =>
    if Text.isHighHalf high && Text.isLowHalf low then Text.pairChar high low :: joinPieces r
    else Text.unitChar high :: joinPieces (.unit low :: r)
  | .unit n :: r => Text.unitChar n :: joinPieces r

/-- Put a piece before what a string goes on with. -/
def consPiece (p : Piece) : Except Fault (List Piece × Nat) → Except Fault (List Piece × Nat)
  | .ok (ps, stop) => .ok (p :: ps, stop)
  | .error f => .error f

/-- Read a string after its opening quote, which stands at `start`; the result is its pieces and
the offset after the closing quote. A `\u` escape needs four digits and a character after them. -/
def readString (start : Nat) : Nat → Text → Except Fault (List Piece × Nat)
  | _, [] => .error ⟨.unterminatedString, start⟩
  | o, '"' :: _ => .ok ([], o + 1)
  | _, ['\\'] => .error ⟨.unterminatedString, start⟩
  | o, '\\' :: 'u' :: a :: b :: c :: d :: x :: r =>
    match hexQuad? a b c d with
    | some n => consPiece (.unit n) (readString start (o + 6) (x :: r))
    | none => .error ⟨.badUnicodeEscape, o + 1⟩
  | o, '\\' :: c :: r =>
    match shortEscape? c with
    | some c' => consPiece (.char c') (readString start (o + 2) r)
    | none => .error (if c = 'u' then ⟨.badUnicodeEscape, o + 1⟩ else ⟨.badEscape, o⟩)
  | o, c :: r =>
    if c.toNat < 0x20 then .error ⟨.controlCharacter, o⟩
    else consPiece (.char c) (readString start (o + 1) r)

/-- The token of a whole number. -/
def wholeToken (negative : Bool) (digits : Text) : Token :=
  match Text.readDigits digits with
  | .ok n => .scalar (int (if negative then -(n : Int) else n))
  | .error _ => .overlong digits.length

/-- A minus at the front of a text. -/
def takeMinus : Text → Bool × Text
  | '-' :: r => (true, r)
  | r => (false, r)

/-- The digits of a whole number at the front of a text: nothing follows a zero. -/
def wholeDigits : Text → Text
  | '0' :: _ => ['0']
  | r => (Decimal.takeDigits r).1

/-- Read a number; the result is its token and the number of characters it takes. -/
def readNumber? (t : Text) : Option (Token × Nat) :=
  let (negative, r) := takeMinus t
  let whole := wholeDigits r
  if whole.isEmpty then none
  else
    let r := r.drop whole.length
    let (fraction, r) := Decimal.takeFraction r
    let (exponent, r) := Decimal.takeExponent r
    let token := if fraction.isEmpty && exponent.isNone then wholeToken negative whole
      else .scalar (float (Decimal.Literal.toDouble ⟨negative, whole, fraction, exponent.getD 0⟩))
    some (token, t.length - r.length)

/-- The values that have names. -/
def named : List (String × Json) :=
  [("null", null), ("true", bool true), ("false", bool false), ("NaN", float .nan),
    ("Infinity", float (.infinite false)), ("-Infinity", float (.infinite true))]

/-- The token at the start of a text, and the number of characters it takes. -/
def readToken (offset : Nat) (c : Char) (r : Text) : Token × Nat :=
  match c with
  | '[' => (.openArray, 1)
  | ']' => (.closeArray, 1)
  | '\x7b' => (.openObject, 1)
  | '\x7d' => (.closeObject, 1)
  | ',' => (.comma, 1)
  | ':' => (.colon, 1)
  | '"' =>
    match readString offset (offset + 1) r with
    | .ok (ps, stop) => (.text (joinPieces ps), stop - offset)
    | .error f => (.faulty f, 1)
  | _ =>
    match named.find? fun p => p.1.toList.isPrefixOf (c :: r) with
    | some (name, v) => (.scalar v, name.length)
    | none =>
      match readNumber? (c :: r) with
      | some found => found
      | none => (.stray, 1)

/-- The lexemes of a text up to the first that no token fits; `skip` characters still belong to
the last token. -/
def lexemesFrom : Nat → Nat → Text → List Lexeme
  | _, _, [] => []
  | skip + 1, offset, _ :: r => lexemesFrom skip (offset + 1) r
  | 0, offset, c :: r =>
    if isSpace c then lexemesFrom 0 (offset + 1) r
    else
      match readToken offset c r with
      | (.faulty f, _) => [⟨.faulty f, offset⟩]
      | (.stray, _) => [⟨.stray, offset⟩]
      | (token, n) => ⟨token, offset⟩ :: lexemesFrom (n - 1) (offset + 1) r

/-- The lexemes of a text. -/
def lexemes (t : Text) : List Lexeme := lexemesFrom 0 0 t

end BackendMigration.Json
