import BackendMigration.Json.Lexeme

/-! Reading JSON: the lexemes one by one, with the arrays and objects still open. -/
namespace BackendMigration.Json

/-- An array or object that is still open: its items backwards, or its fields and the key that
waits for a value. -/
inductive Frame where
  | array (items : List Json)
  | object (fields : Keyed Json) (key : String)
  deriving DecidableEq, Repr

/-- What has to come next. -/
inductive Expect where
  | value
  | itemOrClose
  | keyOrClose
  | key
  | colon
  | commaOrClose
  | nothing (result : Json)
  deriving DecidableEq, Repr

/-- The open frames, the innermost first, and what has to come next. -/
structure Progress where
  frames : List Frame
  expect : Expect
  deriving DecidableEq, Repr

/-- What is wrong if something else comes. -/
def Expect.cause : Expect → Cause
  | value => .expectedValue
  | itemOrClose => .expectedValue
  | keyOrClose => .expectedKey
  | key => .expectedKey
  | colon => .expectedColon
  | commaOrClose => .expectedComma
  | nothing _ => .extraData

/-- A value is complete: it goes into the innermost frame. -/
def complete (v : Json) : List Frame → Progress
  | [] => ⟨[], .nothing v⟩
  | .array items :: rest => ⟨.array (v :: items) :: rest, .commaOrClose⟩
  | .object fields key :: rest => ⟨.object (Keyed.set key v fields) key :: rest, .commaOrClose⟩

/-- As many arrays and objects may be open at once. -/
def maxDepth : Nat := 990

/-- Open an array or object inside of those that are open, unless these are too many. -/
def openFrame (frames : List Frame) (frame : Frame) (expect : Expect) (cause : Cause) (l : Lexeme) :
    Except Fault Progress :=
  if frames.length < maxDepth then .ok ⟨frame :: frames, expect⟩ else .error ⟨cause, l.offset⟩

/-- Take a token where a value has to come. -/
def takeValue (frames : List Frame) (cause : Cause) (l : Lexeme) : Except Fault Progress :=
  match l.token with
  | .scalar v => .ok (complete v frames)
  | .text s => .ok (complete (str (String.ofList s)) frames)
  | .openArray => openFrame frames (.array []) .itemOrClose .deepArray l
  | .openObject => openFrame frames (.object [] "") .keyOrClose .deepObject l
  | .overlong digits => .error ⟨.overlongInteger digits, l.offset⟩
  | .faulty f => .error f
  | _ => .error ⟨cause, l.offset⟩

/-- Take a token where a key has to come. -/
def takeKey (frames : List Frame) (l : Lexeme) : Except Fault Progress :=
  match l.token, frames with
  | .text s, .object fields _ :: rest => .ok ⟨.object fields (String.ofList s) :: rest, .colon⟩
  | .faulty f, _ => .error f
  | _, _ => .error ⟨.expectedKey, l.offset⟩

/-- Take a token. -/
def Progress.step (p : Progress) (l : Lexeme) : Except Fault Progress :=
  match p.expect, l.token, p.frames with
  | .value, _, frames => takeValue frames .expectedValue l
  | .itemOrClose, .closeArray, .array items :: rest => .ok (complete (arr items.reverse) rest)
  | .itemOrClose, _, frames => takeValue frames .expectedValue l
  | .keyOrClose, .closeObject, .object fields _ :: rest => .ok (complete (obj fields) rest)
  | .keyOrClose, _, frames => takeKey frames l
  | .key, _, frames => takeKey frames l
  | .colon, .colon, frames => .ok ⟨frames, .value⟩
  | .commaOrClose, .comma, .array items :: rest => .ok ⟨.array items :: rest, .value⟩
  | .commaOrClose, .comma, .object fields key :: rest => .ok ⟨.object fields key :: rest, .key⟩
  | .commaOrClose, .closeArray, .array items :: rest => .ok (complete (arr items.reverse) rest)
  | .commaOrClose, .closeObject, .object fields _ :: rest => .ok (complete (obj fields) rest)
  | e, _, _ => .error ⟨e.cause, l.offset⟩

/-- Take the lexemes of a text that ends at an offset. -/
def Progress.run (stop : Nat) (p : Progress) : List Lexeme → Except Fault Json
  | [] =>
    match p.expect with
    | .nothing v => .ok v
    | e => .error ⟨e.cause, stop⟩
  | l :: rest =>
    match p.step l with
    | .ok p' => run stop p' rest
    | .error f => .error f

/-- Read a JSON text. A byte order mark is refused. -/
def read (t : Text) : Except Fault Json :=
  if t.head? = some (Char.ofNat 0xFEFF) then .error ⟨.byteOrderMark, 0⟩
  else Progress.run t.length ⟨[], .value⟩ (lexemes t)

end BackendMigration.Json
