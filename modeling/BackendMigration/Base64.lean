/-! Bytes as base-64 text, with padding. -/
namespace BackendMigration.Base64

def alphabet : List Char :=
  "ABCDEFGHIJKLMNOPQRSTUVWXYZabcdefghijklmnopqrstuvwxyz0123456789+/".toList

/-- The character of six bits. -/
def digit (n : Nat) : Char := alphabet.getD (n % 64) 'A'

/-- Three bytes are four characters; one or two at the end are padded. -/
def encode : List UInt8 → List Char
  | [] => []
  | [a] =>
    let n := a.toNat * 16
    [digit (n / 64), digit n, '=', '=']
  | [a, b] =>
    let n := (a.toNat * 256 + b.toNat) * 4
    [digit (n / 4096), digit (n / 64), digit n, '=']
  | a :: b :: c :: r =>
    let n := (a.toNat * 256 + b.toNat) * 256 + c.toNat
    digit (n / 262144) :: digit (n / 4096) :: digit (n / 64) :: digit n :: encode r

/-- The bytes of six-bit groups. -/
def bytesOf : List Nat → List UInt8
  | a :: b :: c :: d :: r =>
    let n := ((a * 64 + b) * 64 + c) * 64 + d
    .ofNat (n / 65536) :: .ofNat (n / 256) :: .ofNat n :: bytesOf r
  | [a, b, c] =>
    let n := ((a * 64 + b) * 64 + c) / 4
    [.ofNat (n / 256), .ofNat n]
  | [a, b] => [.ofNat ((a * 64 + b) / 16)]
  | _ => []

/-- Why a text gives no bytes. -/
inductive Fault where
  | notAscii
  /-- The last of so many digits stands alone in its group. -/
  | single (digits : Nat)
  | padding
  deriving DecidableEq, Repr

def Fault.message : Fault → String
  | notAscii => "string argument should contain only ASCII characters"
  | single digits =>
    "Invalid base64-encoded string: number of data characters (" ++ toString digits ++
      ") cannot be 1 more than a multiple of 4"
  | padding => "Incorrect padding"

/-- The six-bit groups of a text, after those in `before` (the last one first), of which there are
`n`; `pads` signs of padding follow them. Full padding ends the text, and characters outside the
alphabet are passed over. -/
def groups (before : List Nat) (n pads : Nat) : List Char → Except Fault (List Nat)
  | [] =>
    match n % 4 with
    | 0 => .ok before.reverse
    | 1 => .error (.single n)
    | _ => .error .padding
  | c :: r =>
    if c = '=' then
      if n % 4 < 2 then groups before n pads r
      else if 4 ≤ n % 4 + pads + 1 then .ok before.reverse
      else groups before n (pads + 1) r
    else
      match alphabet.idxOf? c with
      | none => groups before n pads r
      | some d => groups (d :: before) (n + 1) 0 r

/-- The bytes of a text. -/
def decode (t : List Char) : Except Fault (List UInt8) :=
  if t.any fun c => 128 ≤ c.toNat then .error .notAscii else (groups [] 0 0 t).map bytesOf

/-- Every three bytes, and a rest of one or two, take four characters. -/
theorem length_encode (bytes : List UInt8) :
    (encode bytes).length = 4 * ((bytes.length + 2) / 3) := by
  fun_induction encode bytes with
  | case1 => rfl
  | case2 => simp
  | case3 => simp
  | case4 a b c r n ih => simp only [List.length_cons, ih]; omega

end BackendMigration.Base64
