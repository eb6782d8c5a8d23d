/-
# LiveBinding.Yaml.Cursor -- a place in a YAML text

A cursor is what is left of a text together with where it stands: characters
and lines passed, and the column in the line.
-/
import LiveBinding.Yaml.Token

namespace LiveBinding.Yaml

set_option autoImplicit false

def isBreak (c : Char) : Bool :=
  c = '\n' || c.toNat = 0x2028 || c.toNat = 0x2029

def isSpace (c : Char) : Bool :=
  c = ' ' || c = '\t'

/-- The characters that a YAML text may hold. -/
def isAllowed (c : Char) : Bool :=
  let n := c.toNat
  n = 0x9 || n = 0xA || n = 0xD || (0x20 ≤ n && n ≤ 0x7E) || n = 0x85 ||
    (0xA0 ≤ n && n ≤ 0xD7FF) || (0xE000 ≤ n && n ≤ 0xFFFD) || 0x10000 ≤ n

/-- The text with one way to break a line, apart from U+2028 and U+2029. -/
def unifyBreaks : List Char → List Char
  | [] => []
  | '\r' :: '\n' :: rest => '\n' :: unifyBreaks rest
  | c :: rest => (if c = '\r' ∨ c.toNat = 0x85 then '\n' else c) :: unifyBreaks rest

/-- What is left of a text, and where it stands. -/
structure Cursor where
  rest : List Char
  index : Nat
  line : Nat
  column : Nat

namespace Cursor

def head? (c : Cursor) : Option Char :=
  c.rest.head?

/-- Pass the first character left. -/
def step (c : Cursor) : Cursor :=
  match c.rest with
  | [] => c
  | d :: rest =>
      if isBreak d then ⟨rest, c.index + 1, c.line + 1, 0⟩
      else ⟨rest, c.index + 1, c.line, c.column + 1⟩

def steps : Nat → Cursor → Cursor
  | 0, c => c
  | n + 1, c => steps n c.step

/-- Pass characters as long as `p` holds of them. -/
def skipWhile (p : Char → Bool) (c : Cursor) : Cursor :=
  steps (c.rest.takeWhile p).length c

/-- The character at a distance satisfies `p`. -/
def at? (c : Cursor) (distance : Nat) (p : Char → Bool) : Bool :=
  (c.rest[distance]?).any p

/-- At a distance stands a blank, a line break or the end. -/
def blankAt (c : Cursor) (distance : Nat) : Bool :=
  match c.rest[distance]? with
  | some d => isSpace d || isBreak d
  | none => true

/-- A mark between documents stands here, made of three times `d`. -/
def isMark (c : Cursor) (d : Char) : Bool :=
  c.column = 0 && c.rest.take 3 = [d, d, d] && c.blankAt 3

/-- Any mark between documents stands here. -/
def isDocumentMark (c : Cursor) : Bool :=
  c.isMark '-' || c.isMark '.'

end Cursor

end LiveBinding.Yaml
