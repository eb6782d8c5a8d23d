/-
# LiveBinding.Template -- texts with fields to fill in

`\x7bname\x7d` in a template stands for the display text of what `name` reads
as; a doubled brace stands for the brace.  The name is what stands between the
braces without the blanks at its ends, and must not be empty.  It goes up to
the next closing brace, so it may itself hold an opening one.

A parsed template alternates texts and fields: no text is empty and no two
texts are adjacent.
-/
import LiveBinding.Json.Text
import LiveBinding.Text.Blank

namespace LiveBinding

set_option autoImplicit false

namespace Template

/-- A piece of a template. -/
inductive Segment where
  | text (value : String)
  | field (name : String)
  deriving DecidableEq

/-- A reason for refusing a template, with the byte offset of the brace. -/
inductive Fault where
  | unclosed (offset : Nat)
  | emptyField (offset : Nat)
  | unmatched (offset : Nat)
  deriving DecidableEq

def Fault.message : Fault → String
  | .unclosed offset => "unclosed '\x7b' at offset " ++ toString offset
  | .emptyField offset => "empty placeholder at offset " ++ toString offset
  | .unmatched offset => "unmatched '\x7d' at offset " ++ toString offset

/-- The text gathered so far, latest character first, as segments: none when it
is empty. -/
def flush (gathered : List Char) : List Segment :=
  if gathered.isEmpty then [] else [.text (String.ofList gathered.reverse)]

mutual

/-- Read on in a text. -/
def scanText (gathered : List Char) (offset : Nat) : List Char → Except Fault (List Segment)
  | [] => .ok (flush gathered)
  | '\x7b' :: '\x7b' :: rest => scanText ('\x7b' :: gathered) (offset + 2) rest
  | '\x7d' :: '\x7d' :: rest => scanText ('\x7d' :: gathered) (offset + 2) rest
  | '\x7b' :: rest => scanField gathered offset [] (offset + 1) rest
  | c :: rest =>
      if c = '\x7d' then .error (.unmatched offset)
      else scanText (c :: gathered) (offset + c.utf8Size) rest

/-- Read on in the field whose brace stands at `start`, after the text
`gathered`. -/
def scanField (gathered : List Char) (start : Nat) (name : List Char) (offset : Nat) :
    List Char → Except Fault (List Segment)
  | [] => .error (.unclosed start)
  | c :: rest =>
      if c = '\x7d' then
        let trimmed := Text.trimChars name.reverse
        if trimmed.isEmpty then .error (.emptyField start)
        else do
          let more ← scanText [] (offset + 1) rest
          .ok (flush gathered ++ .field (String.ofList trimmed) :: more)
      else scanField gathered start (c :: name) (offset + c.utf8Size) rest

end

end Template

structure Template where
  segments : List Template.Segment
  deriving DecidableEq

namespace Template

def read (source : String) : Except Fault Template := do
  .ok ⟨← scanText [] 0 source.toList⟩

/-- The names of the fields, in order. -/
def fields (t : Template) : List String :=
  t.segments.filterMap fun segment =>
    match segment with
    | .field name => some name
    | .text _ => none

/-- The text of a segment, fields being looked up. -/
def Segment.fill (look : String → Json) : Segment → String
  | .text value => value
  | .field name => (look name).displayText

def render (look : String → Json) (t : Template) : String :=
  String.join (t.segments.map (Segment.fill look))

end Template

end LiveBinding
