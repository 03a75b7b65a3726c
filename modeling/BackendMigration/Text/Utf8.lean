import BackendMigration.Text.Quoted

/-! Texts as UTF-8: reading bytes, with the place and cause of the first fault, and writing them. -/
namespace BackendMigration.Utf8

/-- Why bytes are no UTF-8 text. -/
inductive Cause where
  | badStart
  | badContinuation
  | truncated
  deriving DecidableEq, Repr

/-- The first fault: where it starts and how many bytes it spans. -/
structure Fault where
  offset : Nat
  length : Nat
  /-- The first byte of the fault. -/
  byte : UInt8
  cause : Cause
  deriving DecidableEq, Repr

/-- The number of bytes a leading byte announces, and the range of the byte after it. -/
def lead? (b : UInt8) : Option (Nat × UInt8 × UInt8) :=
  if b < 0x80 then some (1, 0, 0)
  else if b < 0xC2 then none
  else if b < 0xE0 then some (2, 0x80, 0xBF)
  else if b = 0xE0 then some (3, 0xA0, 0xBF)
  else if b = 0xED then some (3, 0x80, 0x9F)
  else if b < 0xF0 then some (3, 0x80, 0xBF)
  else if b = 0xF0 then some (4, 0x90, 0xBF)
  else if b < 0xF4 then some (4, 0x80, 0xBF)
  else if b = 0xF4 then some (4, 0x80, 0x8F)
  else none

/-- The bytes seen of a character that is not complete yet. -/
structure Pending where
  offset : Nat
  first : UInt8
  seen : Nat
  missing : Nat
  low : UInt8
  high : UInt8

/-- The first fault in bytes that begin at `offset`, after a possibly incomplete character. -/
def faultFrom? : Nat → Option Pending → List UInt8 → Option Fault
  | _, none, [] => none
  | _, some p, [] => some ⟨p.offset, p.seen, p.first, .truncated⟩
  | offset, none, b :: r =>
    match lead? b with
    | none => some ⟨offset, 1, b, .badStart⟩
    | some (1, _, _) => faultFrom? (offset + 1) none r
    | some (n, low, high) => faultFrom? (offset + 1) (some ⟨offset, b, 1, n - 1, low, high⟩) r
  | offset, some p, b :: r =>
    if b < p.low || p.high < b then some ⟨p.offset, p.seen, p.first, .badContinuation⟩
    else if p.missing ≤ 1 then faultFrom? (offset + 1) none r
    else faultFrom? (offset + 1)
      (some { p with seen := p.seen + 1, missing := p.missing - 1, low := 0x80, high := 0xBF }) r

/-- Two lower-case hexadecimal digits. -/
def hexByte (b : UInt8) : String :=
  String.ofList [Nat.digitChar (b.toNat / 16), Nat.digitChar (b.toNat % 16)]

def Cause.message : Cause → String
  | .badStart => "invalid start byte"
  | .badContinuation => "invalid continuation byte"
  | .truncated => "unexpected end of data"

def Fault.message (f : Fault) : String :=
  "'utf-8' codec can't decode " ++
    (if f.length = 1 then "byte 0x" ++ hexByte f.byte ++ " in position " ++ toString f.offset
     else "bytes in position " ++ toString f.offset ++ "-" ++ toString (f.offset + f.length - 1)) ++
    ": " ++ f.cause.message

/-- Read bytes as text. -/
def decode (bytes : ByteArray) : Except Fault String :=
  if h : bytes.IsValidUTF8 then .ok (String.fromUTF8 bytes h)
  else .error ((faultFrom? 0 none bytes.toList).getD ⟨0, 1, 0, .badStart⟩)

/-- What is written as UTF-8 reads back. -/
@[simp] theorem decode_toUTF8 (s : String) : decode s.toUTF8 = .ok s := by
  have h : s.toUTF8.IsValidUTF8 := s.isValidUTF8
  simp only [decode, h, dif_pos]
  rfl

/-- Bytes that read as a text are the bytes the text is written as. -/
theorem toUTF8_of_decode {bytes : ByteArray} {s : String} (h : decode bytes = .ok s) :
    s.toUTF8 = bytes := by
  unfold decode at h
  split at h
  · cases h; rfl
  · cases h

/-- A stretch of a text that has no UTF-8 form: halves of pairs, each alone. -/
structure Unwritable where
  offset : Nat
  length : Nat
  /-- The first half. -/
  unit : Nat
  deriving DecidableEq, Repr

def Unwritable.message (f : Unwritable) : String :=
  "'utf-8' codec can't encode " ++
    (if f.length = 1 then
      "character '\\u" ++ String.ofList (Text.hex 4 f.unit) ++ "' in position " ++ toString f.offset
     else "characters in position " ++ toString f.offset ++ "-" ++
      toString (f.offset + f.length - 1)) ++
    ": surrogates not allowed"

/-- The first stretch of a text that has no UTF-8 form. -/
def unwritable? (t : Text) : Option Unwritable :=
  let before := t.takeWhile fun c => (Text.half? c).isNone
  let halves := ((t.drop before.length).takeWhile fun c => (Text.half? c).isSome).filterMap Text.half?
  halves.head?.map fun unit => ⟨before.length, halves.length, unit⟩

/-- Write a text as bytes. -/
def encode (t : Text) : Except Unwritable ByteArray :=
  match unwritable? t with
  | some f => .error f
  | none => .ok (String.ofList t).toUTF8

/-- Only a text without halves is written, and it reads back. -/
theorem decode_of_encode {t : Text} {bytes : ByteArray} (h : encode t = .ok bytes) :
    decode bytes = .ok (String.ofList t) := by
  unfold encode at h
  split at h
  · cases h
  · cases h
    exact decode_toUTF8 _

end BackendMigration.Utf8
