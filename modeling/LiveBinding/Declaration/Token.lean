/-
# LiveBinding.Declaration.Token -- cutting a declaration into tokens

The text is read once, character by character, in one of four modes: between
tokens, inside a quoted text, inside a number, inside a name.  Offsets count
bytes.  Between tokens every blank character is skipped.

* A quoted text ends at the quote that opened it.  After a backslash `n`, `t`
  and `r` stand for line feed, tab and carriage return, and any other character
  for itself.
* A number starts with a digit, a minus or a point and takes in digits, points,
  the letters `e` and `E`, and a sign right after such a letter.
* A name starts with an ASCII letter, `_` or `$` and takes in digits too.
-/
import LiveBinding.Declaration.Fault
import LiveBinding.Number.Nearest
import LiveBinding.Text.Blank

namespace LiveBinding.Declaration

set_option autoImplicit false

/-- A token and the byte offset where it stands. -/
structure Placed where
  token : Token
  offset : Nat
  deriving DecidableEq

/-- A fault and the byte offset where it stands. -/
structure Misplaced where
  fault : Fault
  offset : Nat
  deriving DecidableEq

def isNameStart (c : Char) : Bool :=
  c.isAlpha || c = '_' || c = '$'

def isNamePart (c : Char) : Bool :=
  isNameStart c || c.isDigit

def isQuote (c : Char) : Bool :=
  c = '"' || c = '\''

def isNumberStart (c : Char) : Bool :=
  c.isDigit || c = '-' || c = '.'

def isExponentMark (c : Char) : Bool :=
  c = 'e' || c = 'E'

/-- `c` goes on with the number whose characters so far are `read`, latest
first. -/
def isNumberPart (read : List Char) (c : Char) : Bool :=
  c.isDigit || c = '.' || isExponentMark c ||
    ((c = '-' || c = '+') && read.head?.any isExponentMark)

/-- The tokens of one character. -/
def single? (c : Char) : Option Token :=
  match c with
  | ':' => some .colon
  | ',' => some .comma
  | '!' => some .bang
  | '\x7b' => some .openBrace
  | '\x7d' => some .closeBrace
  | '(' => some .openParen
  | ')' => some .closeParen
  | _ => none

/-- What a character after a backslash stands for. -/
def unescape (c : Char) : Char :=
  match c with
  | 'n' => '\n'
  | 't' => '\t'
  | 'r' => '\r'
  | c => c

/-- Where in a token the reading stands.  Characters already read are kept
latest first. -/
inductive Mode where
  | between
  | quoted (quote : Char) (start : Nat) (read : List Char) (escaped : Bool)
  | number (start : Nat) (read : List Char)
  | name (start : Nat) (read : List Char)

/-- The text of characters kept latest first. -/
def gathered (read : List Char) : String :=
  String.ofList read.reverse

/-- The number whose characters were read from `start` on. -/
def numberToken (start : Nat) (read : List Char) : Except Misplaced Placed :=
  match Number.ofLiteral? read.reverse with
  | some n => .ok ⟨.number n, start⟩
  | none => .error ⟨.invalidNumber (gathered read), start⟩

/-- Read a character that stands between tokens: the token it is, if it is one
by itself, and the mode after it. -/
def enter (offset : Nat) (c : Char) : Except Misplaced (Option Placed × Mode) :=
  match single? c with
  | some token => .ok (some ⟨token, offset⟩, .between)
  | none =>
      if Text.isBlank c then .ok (none, .between)
      else if isQuote c then .ok (none, .quoted c offset [] false)
      else if isNumberStart c then .ok (none, .number offset [c])
      else if isNameStart c then .ok (none, .name offset [c])
      else .error ⟨.unexpectedCharacter c, offset⟩

/-- Read one character: the tokens it completes and the mode after it. -/
def advance (mode : Mode) (offset : Nat) (c : Char) : Except Misplaced (List Placed × Mode) :=
  match mode with
  | .between => do
      let next ← enter offset c
      .ok (next.1.toList, next.2)
  | .quoted quote start read true => .ok ([], .quoted quote start (unescape c :: read) false)
  | .quoted quote start read false =>
      if c = '\\' then .ok ([], .quoted quote start read true)
      else if c = quote then .ok ([⟨.text (gathered read), start⟩], .between)
      else .ok ([], .quoted quote start (c :: read) false)
  | .number start read =>
      if isNumberPart read c then .ok ([], .number start (c :: read))
      else do
        let token ← numberToken start read
        let next ← enter offset c
        .ok (token :: next.1.toList, next.2)
  | .name start read =>
      if isNamePart c then .ok ([], .name start (c :: read))
      else do
        let next ← enter offset c
        .ok (⟨.name (gathered read), start⟩ :: next.1.toList, next.2)

/-- The end of the text: the token it completes. -/
def conclude (mode : Mode) : Except Misplaced (List Placed) :=
  match mode with
  | .between => .ok []
  | .quoted _ start _ _ => .error ⟨.unterminatedText, start⟩
  | .number start read => do .ok [← numberToken start read]
  | .name start read => .ok [⟨.name (gathered read), start⟩]

/-- The tokens of the characters from `offset` on. -/
def scan (mode : Mode) (offset : Nat) : List Char → Except Misplaced (List Placed)
  | [] => conclude mode
  | c :: rest => do
      let step ← advance mode offset c
      let more ← scan step.2 (offset + c.utf8Size) rest
      .ok (step.1 ++ more)

def tokens (text : String) : Except Misplaced (List Placed) :=
  scan .between 0 text.toList

end LiveBinding.Declaration
