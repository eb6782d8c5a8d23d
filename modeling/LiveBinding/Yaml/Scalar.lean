/-
# LiveBinding.Yaml.Scalar -- the text of scalars

Line breaks inside plain and quoted scalars are folded: one break is a blank,
and of several the first is dropped.  A literal scalar keeps its breaks, a
folded one folds those between lines that start at its indentation.

Each function reads a scalar at a cursor and gives its text and the cursor
behind it.
-/
import LiveBinding.Json.Reading
import LiveBinding.Yaml.Cursor

namespace LiveBinding.Yaml

set_option autoImplicit false

/-- Blanks and line breaks between the words of a scalar.  `breaks` is empty
when they stand in one line. -/
structure Gap where
  spaces : List Char
  breaks : List Char

namespace Gap

def none : Gap := ⟨[], []⟩

/-- What a gap is in the text of a scalar. -/
def folded (g : Gap) : List Char :=
  match g.breaks with
  | [] => g.spaces
  | first :: rest =>
      if first = '\n' then if rest.isEmpty then [' '] else rest else first :: rest

end Gap

/-- Read a gap.  With a column given, a tab that stands left of it at the start
of a line is refused. -/
def readGap (margin : Option Nat) : Nat → Gap → Cursor → Except Fault (Gap × Cursor)
  | 0, gap, c => .ok (gap, c)
  | fuel + 1, gap, c =>
      match c.head? with
      | some d =>
          if isBreak d then readGap margin fuel { gap with breaks := gap.breaks ++ [d] } c.step
          else if isSpace d then
            if gap.breaks.isEmpty then
              readGap margin fuel { gap with spaces := gap.spaces ++ [d] } c.step
            else if d = '\t' && margin.any (c.column < ·) then .error .tabAsIndentation
            else readGap margin fuel gap c.step
          else .ok (gap, c)
      | Option.none => .ok (gap, c)

/-! ## Plain scalars -/

/-- The characters that end a plain scalar in flow style. -/
def isFlowMark (c : Char) : Bool :=
  c = ',' || c = '[' || c = ']' || c = '\x7b' || c = '\x7d'

/-- Read a word of a plain scalar: up to a blank, a colon with a blank after
it, or a mark of flow style.  `read` is kept latest first. -/
def readWord (flow : Bool) : Nat → List Char → Cursor → Except Fault (List Char × Cursor)
  | 0, read, c => .ok (read, c)
  | fuel + 1, read, c =>
      match c.head? with
      | none => .ok (read, c)
      | some d =>
          if isSpace d || isBreak d then .ok (read, c)
          else if flow && d = ':' && c.at? 1 (fun e => isFlowMark e || e = '?') then
            .error (.unexpectedCharacter ':')
          else if d = ':' && c.blankAt 1 then .ok (read, c)
          else if flow && isFlowMark d then .ok (read, c)
          else readWord flow fuel (d :: read) c.step

/-- A plain scalar: its text latest first, whether a line break stands between
it and what follows, and the cursor there. -/
structure Plain where
  text : List Char
  brokeLine : Bool
  cursor : Cursor

/-- Read a plain scalar.  In block style its further lines start at `margin` or
right of it.  `gap` stands between `text` and the cursor. -/
def readPlain (flow : Bool) (margin : Nat) : Nat → List Char → Gap → Cursor → Except Fault Plain
  | 0, text, gap, c => .ok ⟨text, !gap.breaks.isEmpty, c⟩
  | fuel + 1, text, gap, c =>
      if c.isDocumentMark || c.head? = some '#' then .ok ⟨text, !gap.breaks.isEmpty, c⟩
      else do
        let word ← readWord flow c.rest.length [] c
        if word.1.isEmpty then .ok ⟨text, !gap.breaks.isEmpty, c⟩
        else
          let text := word.1 ++ (gap.folded.reverse ++ text)
          let next ← readGap (some margin) word.2.rest.length .none word.2
          let gap := next.1
          if gap.spaces.isEmpty && gap.breaks.isEmpty then .ok ⟨text, false, next.2⟩
          else if !flow && next.2.column < margin then .ok ⟨text, !gap.breaks.isEmpty, next.2⟩
          else readPlain flow margin fuel text gap next.2

/-! ## Quoted scalars -/

/-- The characters that a letter after a backslash stands for. -/
def simpleEscape? (c : Char) : Option Char :=
  match c with
  | '0' => some (Char.ofNat 0)
  | 'a' => some (Char.ofNat 7)
  | 'b' => some (Char.ofNat 8)
  | 't' => some '\t'
  | '\t' => some '\t'
  | 'n' => some '\n'
  | 'v' => some (Char.ofNat 0xB)
  | 'f' => some (Char.ofNat 0xC)
  | 'r' => some '\r'
  | 'e' => some (Char.ofNat 0x1B)
  | ' ' => some ' '
  | '"' => some '"'
  | '/' => some '/'
  | '\\' => some '\\'
  | 'N' => some (Char.ofNat 0x85)
  | '_' => some (Char.ofNat 0xA0)
  | 'L' => some (Char.ofNat 0x2028)
  | 'P' => some (Char.ofNat 0x2029)
  | _ => none

/-- How many hexadecimal digits follow a letter after a backslash. -/
def escapeLength? (c : Char) : Option Nat :=
  match c with
  | 'x' => some 2
  | 'u' => some 4
  | 'U' => some 8
  | _ => none

/-- The character that hexadecimal digits write. -/
def codePoint? (digits : List Char) : Option Char := do
  let values ← digits.mapM Json.hexValue?
  let n := values.foldl (fun n d => n * 16 + d) 0
  if (0xD800 ≤ n && n ≤ 0xDFFF) || 0x10FFFF < n then none else some (Char.ofNat n)

/-- Read the escape whose backslash stands at the cursor. -/
def readEscape (c : Cursor) : Except Fault (Char × Cursor) :=
  match c.rest with
  | _ :: d :: more =>
      match simpleEscape? d, escapeLength? d with
      | some e, _ => .ok (e, c.steps 2)
      | none, some n =>
          if (more.take n).length < n then .error .unknownEscape
          else
            match codePoint? (more.take n) with
            | some e => .ok (e, c.steps (n + 2))
            | none => .error .invalidCodePoint
      | none, none => .error .unknownEscape
  | _ => .error .unexpectedEnd

/-- Read a quoted scalar behind its opening quote.  `text` is kept latest
first. -/
def readQuoted (quote : Char) : Nat → List Char → Cursor → Except Fault (List Char × Cursor)
  | 0, _, _ => .error .unexpectedEnd
  | fuel + 1, text, c =>
      if c.isDocumentMark then .error .unexpectedDocumentMark
      else
        match c.rest with
        | [] => .error .unexpectedEnd
        | d :: more =>
            if d = quote then
              if quote = '\'' && more.head? = some '\'' then
                readQuoted quote fuel ('\'' :: text) (c.steps 2)
              else .ok (text, c.step)
            else if isSpace d || isBreak d then do
              let next ← readGap Option.none c.rest.length .none c
              readQuoted quote fuel (next.1.folded.reverse ++ text) next.2
            else if quote = '"' && d = '\\' then
              if more.head?.any isBreak then do
                let next ← readGap Option.none more.length .none (c.steps 2)
                let gap := next.1.breaks
                readQuoted quote fuel (gap.reverse ++ text) next.2
              else do
                let escape ← readEscape c
                readQuoted quote fuel (escape.1 :: text) escape.2
            else readQuoted quote fuel (d :: text) c.step

/-! ## Block scalars -/

/-- What becomes of the line breaks at the end of a block scalar. -/
inductive Chomping where
  | strip
  | clip
  | keep
  deriving DecidableEq

/-- The header of a block scalar. -/
structure BlockHeader where
  chomping : Chomping
  indentation : Option Nat

/-- What a sign in a block header says. -/
def chomping? (c : Char) : Option Chomping :=
  match c with
  | '+' => some .keep
  | '-' => some .strip
  | _ => none

/-- Read the sign and the digit of a block header, in either order. -/
def readHeaderMarks (c : Cursor) : Except Fault (BlockHeader × Cursor) :=
  let digit? (c : Cursor) : Option Nat :=
    match c.head? with
    | some d => if d.isDigit then some (d.toNat - '0'.toNat) else none
    | none => none
  let sign? (c : Cursor) : Option Chomping := c.head?.bind chomping?
  let found : Option Chomping × Option Nat × Cursor :=
    match sign? c, digit? c with
    | some s, _ =>
        match digit? c.step with
        | some n => (some s, some n, c.steps 2)
        | none => (some s, none, c.step)
    | none, some n =>
        match sign? c.step with
        | some s => (some s, some n, c.steps 2)
        | none => (none, some n, c.step)
    | none, none => (none, none, c)
  if found.2.1 = some 0 then .error .invalidBlockHeader
  else .ok (⟨found.1.getD .clip, found.2.1⟩, found.2.2)

/-- Read the rest of the line that opens a block scalar. -/
def readHeader (c : Cursor) : Except Fault (BlockHeader × Cursor) := do
  let marks ← readHeaderMarks c
  let blank := marks.2.skipWhile isSpace
  let bare := if blank.head? = some '#' then blank.skipWhile (!isBreak ·) else blank
  match bare.head? with
  | none => .ok (marks.1, bare)
  | some d => if isBreak d then .ok (marks.1, bare.step) else .error .invalidBlockHeader

/-- Empty lines of a block scalar: their breaks, the greatest column met, and
the cursor at the next line that is not empty. -/
structure Margin where
  breaks : List Char
  widest : Nat
  cursor : Cursor

/-- Pass empty lines and the indentation of the line after them, up to column
`indentation` if it is known. -/
def readMargin (indentation : Option Nat) : Nat → Margin → Except Fault Margin
  | 0, m => .ok m
  | fuel + 1, m =>
      let within (c : Cursor) : Bool := indentation.all (c.column < ·)
      match m.cursor.head? with
      | some d =>
          if d = ' ' && within m.cursor then
            readMargin indentation fuel { m with cursor := m.cursor.step }
          else
            let widest := max m.widest m.cursor.column
            if d = '\t' && within m.cursor then .error .tabAsIndentation
            else if isBreak d then
              readMargin indentation fuel ⟨m.breaks ++ [d], widest, m.cursor.step⟩
            else .ok { m with widest := widest }
      | none => .ok { m with widest := max m.widest m.cursor.column }

/-- The lines of a block scalar read so far, latest character first, and the
breaks after them, of which the first ended a line with text. -/
structure Lines where
  text : List Char
  ending : List Char
  breaks : List Char
  blankStart : Bool
  cursor : Cursor

/-- The breaks between two lines of a block scalar.  A folded scalar joins two
lines by a blank unless one of them starts with a blank. -/
def Lines.joint (l : Lines) (literal blankStart : Bool) : List Char :=
  if !literal && l.ending = ['\n'] && !l.blankStart && !blankStart then
    if l.breaks.isEmpty then [' '] else l.breaks
  else l.ending ++ l.breaks

/-- Read the lines of a block scalar that start at its indentation. -/
def readLines (literal : Bool) (indentation : Nat) : Nat → Lines → Except Fault Lines
  | 0, l => .ok l
  | fuel + 1, l =>
      match l.cursor.head? with
      | none => .ok l
      | some d =>
          if l.cursor.column ≠ indentation then .ok l
          else do
            let blankStart := isSpace d
            let line := l.cursor.rest.takeWhile (!isBreak ·)
            let after := l.cursor.steps line.length
            let ending := (after.rest.take 1)
            let text := line.reverse ++ ((l.joint literal blankStart).reverse ++ l.text)
            let margin ← readMargin (some indentation) (after.rest.length + 1) ⟨[], 0, after.step⟩
            readLines literal indentation fuel ⟨text, ending, margin.breaks, blankStart, margin.cursor⟩

/-- Read a block scalar behind its opening character, inside a block that is
indented by `outer`. -/
def readBlock (literal : Bool) (outer : Int) (c : Cursor) : Except Fault (List Char × Cursor) := do
  let header ← readHeader c
  let known : Option Nat := header.1.indentation.map fun n => (max outer 0 + n).toNat
  let margin ← readMargin known (header.2.rest.length + 1) ⟨[], 0, header.2⟩
  let indentation := known.getD (max margin.widest (max (outer + 1) 1).toNat)
  let lines ← readLines literal indentation margin.cursor.rest.length
    ⟨[], [], margin.breaks, false, margin.cursor⟩
  let tail :=
    match header.1.chomping with
    | .strip => []
    | .clip => lines.ending
    | .keep => lines.ending ++ lines.breaks
  .ok (tail.reverse ++ lines.text, lines.cursor)

end LiveBinding.Yaml
