import BackendMigration.Pattern.Basic

/-! Matching a pattern against a text, with the first choices that lead to a match. -/
namespace BackendMigration

/-- A place in a text: the character before it, the text after it and its offset. -/
structure Cursor where
  previous : Option Char
  rest : Text
  offset : Nat
  deriving DecidableEq, Repr

namespace Cursor

/-- The start of a text. -/
def start (t : Text) : Cursor := ⟨none, t, 0⟩

/-- The next place, if the text goes on with a character of the class. -/
def step? (k : CharClass) (c : Cursor) : Option Cursor :=
  match c.rest with
  | [] => none
  | a :: r => if k.holds a then some ⟨some a, r, c.offset + 1⟩ else none

/-- The place `n` characters on, or the end. -/
def advance : Nat → Cursor → Cursor
  | 0, c => c
  | n + 1, c =>
    match c.rest with
    | [] => c
    | a :: r => advance n ⟨some a, r, c.offset + 1⟩

/-- A word character on exactly one side. -/
def isWordEdge (c : Cursor) : Bool :=
  (c.previous.any Text.isWord) != (c.rest.head?.any Text.isWord)

end Cursor

/-- The named parts of a match, the last one found first. -/
abbrev Parts := List (String × Text)

namespace Pattern

/-- Repeat a step as often as it moves on, at most `bound` times, then go on with `k`. -/
def repeatThen {α : Type} (step : (Cursor → Parts → Option α) → Cursor → Parts → Option α)
    (k : Cursor → Parts → Option α) : Nat → Cursor → Parts → Option α
  | 0, c, g => k c g
  | bound + 1, c, g =>
    match step (fun c' g' => if c.offset < c'.offset then repeatThen step k bound c' g' else none)
        c g with
    | some a => some a
    | none => k c g

/-- Match at a place and go on with `k` after it; the first way that `k` accepts counts. -/
def matchThen {α : Type} : Pattern → (Cursor → Parts → Option α) → Cursor → Parts → Option α
  | nothing, k, c, g => k c g
  | one cls, k, c, g =>
    match c.step? cls with
    | some c' => k c' g
    | none => none
  | seq p q, k, c, g => p.matchThen (q.matchThen k) c g
  | alt p q, k, c, g =>
    match p.matchThen k c g with
    | some a => some a
    | none => q.matchThen k c g
  | many p, k, c, g => repeatThen p.matchThen k c.rest.length c g
  | part name p, k, c, g =>
    p.matchThen (fun c' g' => k c' ((name, c.rest.take (c'.offset - c.offset)) :: g')) c g
  | wordEdge, k, c, g => if c.isWordEdge then k c g else none
  | notAfter cls, k, c, g => if c.previous.any cls.holds then none else k c g
  | before cls, k, c, g => if c.rest.head?.any cls.holds then k c g else none
  | atEnd, k, c, g => if c.rest.isEmpty then k c g else none

end Pattern

/-- A match: where it starts and ends, its text and its named parts. -/
structure Match where
  start : Nat
  stop : Nat
  text : Text
  parts : Parts
  deriving DecidableEq, Repr

/-- The text of a named part; none where the match went without it. -/
def Match.part? (m : Match) (name : String) : Option Text := m.parts.lookup name

namespace Pattern

/-- The match that starts at a place. -/
def matchAt? (p : Pattern) (c : Cursor) : Option Match :=
  p.matchThen (fun c' g => some ⟨c.offset, c'.offset, c.rest.take (c'.offset - c.offset), g⟩) c []

/-- The first match at or after a place. -/
def searchFrom? (p : Pattern) (previous : Option Char) (offset : Nat) : Text → Option Match
  | [] => p.matchAt? ⟨previous, [], offset⟩
  | a :: r =>
    match p.matchAt? ⟨previous, a :: r, offset⟩ with
    | some m => some m
    | none => searchFrom? p (some a) (offset + 1) r

/-- The first match at or after a place. -/
def search? (p : Pattern) (c : Cursor) : Option Match := p.searchFrom? c.previous c.offset c.rest

/-- The pattern occurs in a text. -/
def occursIn (p : Pattern) (t : Text) : Bool := (p.search? (.start t)).isSome

/-- The match that takes all of a text. -/
def matchAll? (p : Pattern) (t : Text) : Option Match := (seq p atEnd).matchAt? (.start t)

/-- All matches from the left, each after the end of the one before; `skip` characters still
belong to the last one. -/
def matchesFrom (p : Pattern) : Nat → Option Char → Nat → Text → List Match
  | _, _, _, [] => []
  | skip + 1, _, offset, a :: r => matchesFrom p skip (some a) (offset + 1) r
  | 0, previous, offset, a :: r =>
    match p.matchAt? ⟨previous, a :: r, offset⟩ with
    | some m => m :: matchesFrom p (m.stop - m.start - 1) (some a) (offset + 1) r
    | none => matchesFrom p 0 (some a) (offset + 1) r

/-- All matches that take at least one character, from the left, none overlapping another. -/
def allMatches (p : Pattern) (t : Text) : List Match := p.matchesFrom 0 none 0 t

end Pattern
end BackendMigration
