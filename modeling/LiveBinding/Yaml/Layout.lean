/-
# LiveBinding.Yaml.Layout -- YAML text as tokens

Indentation opens and closes block collections.  A sequence opens at a dash
right of the indentation in force, a mapping at a key right of it; both close
at the first token left of them.

A key without question mark is known as one only when its colon is met.  Where
one may start, its place is kept (`KeySpot`), and the tokens that belong before
it are put in when the colon comes.  The colon must come in the same line; where
a block mapping leaves no other choice, its absence is a fault.
-/
import LiveBinding.Yaml.Scalar

namespace LiveBinding.Yaml

set_option autoImplicit false

/-- A place where a key may start. -/
structure KeySpot where
  /-- Nothing but a key may stand there. -/
  required : Bool
  /-- How many tokens stand before it. -/
  tokens : Nat
  line : Nat
  index : Nat
  column : Nat

/-- What is read so far. -/
structure Layout where
  cursor : Cursor
  /-- The column of the innermost block collection; `-1` outside all of them. -/
  indent : Int
  outer : List Int
  /-- How many flow collections are open. -/
  flow : Nat
  /-- A key may start at the cursor. -/
  keyAllowed : Bool
  /-- The place of a key for each open flow collection, innermost first, and
  for the block around them. -/
  spots : List (Option KeySpot)
  tokens : List Token

namespace Layout

def start (text : List Char) : Layout :=
  ⟨⟨text, 0, 0, 0⟩, -1, [], 0, true, [none], []⟩

def emit (t : Token) (l : Layout) : Layout :=
  { l with tokens := l.tokens ++ [t] }

/-- Open a block collection at a column, with a token before the one that will
be number `number`. -/
def roll (column : Nat) (number : Nat) (t : Token) (l : Layout) : Layout :=
  if l.flow = 0 ∧ l.indent < column then
    { l with
      indent := column
      outer := l.indent :: l.outer
      tokens := l.tokens.take number ++ t :: l.tokens.drop number }
  else l

/-- Close block collections right of a column: how many, and what is left. -/
def closing (column indent : Int) : List Int → Nat × Int × List Int
  | [] => (0, indent, [])
  | around :: outer =>
      if column < indent then
        let rest := closing column around outer
        (rest.1 + 1, rest.2)
      else (0, indent, around :: outer)

/-- Close the block collections right of a column. -/
def unroll (column : Int) (l : Layout) : Layout :=
  if l.flow = 0 then
    let closed := closing column l.indent l.outer
    { l with
      indent := closed.2.1
      outer := closed.2.2
      tokens := l.tokens ++ List.replicate closed.1 .blockEnd }
  else l

/-- Give up a place for a key. -/
def forsake : Option KeySpot → Except Fault (Option KeySpot)
  | some spot => if spot.required then .error .keyWithoutColon else .ok none
  | none => .ok none

/-- Give up the place for a key at the innermost level. -/
def dropSpot (l : Layout) : Except Fault Layout :=
  match l.spots with
  | [] => .ok l
  | spot :: rest => do .ok { l with spots := (← forsake spot) :: rest }

/-- Keep the cursor as a place for a key, if one may start there. -/
def saveSpot (l : Layout) : Except Fault Layout :=
  if l.keyAllowed then do
    let dropped ← l.dropSpot
    let required : Bool := decide (l.flow = 0) && decide (l.indent = (l.cursor.column : Int))
    let spot : KeySpot :=
      ⟨required, l.tokens.length, l.cursor.line, l.cursor.index, l.cursor.column⟩
    .ok { dropped with spots := some spot :: dropped.spots.drop 1 }
  else .ok l

/-- Give up the places in former lines, and those too far back. -/
def dropStale (l : Layout) : Except Fault Layout := do
  let spots ← l.spots.mapM fun spot =>
    match spot with
    | some s =>
        if s.line < l.cursor.line ∨ s.index + 1024 < l.cursor.index then forsake spot else .ok spot
    | none => .ok none
  .ok { l with spots := spots }

/-- Pass blanks, comments and line breaks.  Where a key may start in block
style, a tab is no blank. -/
def skip : Nat → Layout → Layout
  | 0, l => l
  | fuel + 1, l =>
      match l.cursor.head? with
      | none => l
      | some c =>
          if c = ' ' || (c = '\t' && (l.flow ≠ 0 || !l.keyAllowed)) then
            skip fuel { l with cursor := l.cursor.step }
          else if c = '#' then
            skip fuel { l with cursor := l.cursor.skipWhile (!isBreak ·) }
          else if isBreak c then
            skip fuel { l with cursor := l.cursor.step, keyAllowed := l.keyAllowed || l.flow = 0 }
          else l

/-- Pass the character at the cursor and add its token; then a key may start
or not. -/
def mark (t : Token) (keyAllowed : Bool) (l : Layout) : Layout :=
  { l with cursor := l.cursor.step, keyAllowed := keyAllowed }.emit t

def documentMark (t : Token) (l : Layout) : Except Fault Layout := do
  let dropped ← (l.unroll (-1)).dropSpot
  .ok ({ dropped with cursor := dropped.cursor.steps 3, keyAllowed := false }.emit t)

def openFlow (t : Token) (l : Layout) : Except Fault Layout := do
  let saved ← l.saveSpot
  .ok ({ saved with flow := saved.flow + 1, spots := none :: saved.spots }.mark t true)

def closeFlow (t : Token) (l : Layout) : Except Fault Layout := do
  let dropped ← l.dropSpot
  let spots := if dropped.flow = 0 then dropped.spots else dropped.spots.drop 1
  .ok ({ dropped with flow := dropped.flow - 1, spots := spots }.mark t false)

def flowEntry (l : Layout) : Except Fault Layout := do
  .ok ((← l.dropSpot).mark .flowEntry true)

/-- A dash before an entry. -/
def blockEntry (l : Layout) : Except Fault Layout :=
  if l.flow = 0 ∧ l.keyAllowed = false then .error .entryNotAllowed
  else do
    let rolled := l.roll l.cursor.column l.tokens.length .blockSequenceStart
    .ok ((← rolled.dropSpot).mark .blockEntry true)

/-- A question mark before a key. -/
def key (l : Layout) : Except Fault Layout :=
  if l.flow = 0 ∧ l.keyAllowed = false then .error .valueNotAllowed
  else do
    let rolled := l.roll l.cursor.column l.tokens.length .blockMappingStart
    .ok ((← rolled.dropSpot).mark .key (l.flow = 0))

/-- A colon before a value. -/
def value (l : Layout) : Except Fault Layout :=
  match l.spots with
  | some spot :: rest =>
      let keyed := { l with
        spots := none :: rest
        tokens := l.tokens.take spot.tokens ++ Token.key :: l.tokens.drop spot.tokens }
      .ok ((keyed.roll spot.column spot.tokens .blockMappingStart).mark .value false)
  | _ =>
      if l.flow = 0 ∧ l.keyAllowed = false then .error .valueNotAllowed
      else
        let rolled := l.roll l.cursor.column l.tokens.length .blockMappingStart
        .ok (rolled.mark .value (l.flow = 0))

/-- A scalar that was read up to a cursor, its text latest first. -/
def scalar (plain : Bool) (text : List Char) (cursor : Cursor) (keyAllowed : Bool) (l : Layout) :
    Layout :=
  { l with cursor := cursor, keyAllowed := keyAllowed }.emit
    (.scalar plain (String.ofList text.reverse))

def blockScalar (literal : Bool) (l : Layout) : Except Fault Layout := do
  let dropped ← l.dropSpot
  let result ← readBlock literal dropped.indent dropped.cursor.step
  .ok (dropped.scalar false result.1 result.2 true)

def quotedScalar (quote : Char) (l : Layout) : Except Fault Layout := do
  let saved ← l.saveSpot
  let result ← readQuoted quote (saved.cursor.rest.length + 1) [] saved.cursor.step
  .ok (saved.scalar false result.1 result.2 false)

/-- A plain scalar. -/
def plainScalar (l : Layout) : Except Fault Layout := do
  let saved ← l.saveSpot
  let result ← readPlain (saved.flow ≠ 0) (saved.indent + 1).toNat (saved.cursor.rest.length + 1)
    [] .none saved.cursor
  .ok (saved.scalar true result.text result.cursor result.brokeLine)

/-- The characters that cannot start a plain scalar. -/
def isReserved (c : Char) : Bool :=
  c ∈ ['-', '?', ':', ',', '[', ']', '\x7b', '\x7d', '#', '&', '*', '!', '|', '>', '\'', '"', '%',
    '@', Char.ofNat 0x60]

/-- A plain scalar may start here. -/
def plainStart (c : Char) (l : Layout) : Bool :=
  !isReserved c ||
    (c = '-' && !l.cursor.at? 1 isSpace) ||
    (l.flow = 0 && (c = '?' || c = ':') && !l.cursor.blankAt 1)

/-- Read the token that starts with `c`, the character at the cursor. -/
def next (c : Char) (l : Layout) : Except Fault Layout :=
  let separate := l.flow ≠ 0 || l.cursor.blankAt 1
  if l.cursor.isMark '-' then l.documentMark .documentStart
  else if l.cursor.isMark '.' then l.documentMark .documentEnd
  else if c = '[' then l.openFlow .flowSequenceStart
  else if c = '\x7b' then l.openFlow .flowMappingStart
  else if c = ']' then l.closeFlow .flowSequenceEnd
  else if c = '\x7d' then l.closeFlow .flowMappingEnd
  else if c = ',' then l.flowEntry
  else if c = '-' && l.cursor.blankAt 1 then l.blockEntry
  else if c = '?' && separate then l.key
  else if c = ':' && separate then l.value
  else if c = '|' && l.flow = 0 then l.blockScalar true
  else if c = '>' && l.flow = 0 then l.blockScalar false
  else if c = '\'' || c = '"' then l.quotedScalar c
  else if l.plainStart c then l.plainScalar
  else .error (.unexpectedCharacter c)

/-- Read tokens up to the end of the text. -/
def run : Nat → Layout → Except Fault Layout
  | 0, _ => .error .unexpectedEnd
  | fuel + 1, l => do
      let fresh ← (l.skip (l.cursor.rest.length + 1)).dropStale
      match fresh.cursor.head? with
      | none => (fresh.unroll (-1)).dropSpot
      | some c => run fuel (← (fresh.unroll fresh.cursor.column).next c)

end Layout

/-- The tokens of a YAML text. -/
def tokens (text : String) : Except Fault (List Token) :=
  let cs := text.toList
  let body := if cs.head? = some (Char.ofNat 0xFEFF) then cs.drop 1 else cs
  if body.all isAllowed then do
    let unified := unifyBreaks body
    .ok (← (Layout.start unified).run (unified.length + 1)).tokens
  else .error .controlCharacter

end LiveBinding.Yaml
