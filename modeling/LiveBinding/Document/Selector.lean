/-
# LiveBinding.Document.Selector -- finding elements

A selector is a list of compounds with blanks between them.  A compound such as
`input#name.wide` asks for a tag, an identifier and classes; `*` is any tag.

An element is found below a root when it matches the last compound and the
other compounds are matched, from the inside outwards, by ancestors of it that
lie strictly below the root.  Each is matched by the nearest ancestor there is
left.
-/
import LiveBinding.Document.Basic

namespace LiveBinding

set_option autoImplicit false

/-- What one part of a selector asks of an element. -/
structure Compound where
  tag : Option String
  id : Option String
  classes : List String
  deriving DecidableEq

namespace Compound

/-- Asks for nothing. -/
def any : Compound := ⟨none, none, []⟩

/-- Add the condition that `mark` introduces: `#` an identifier, `.` a class,
anything else a tag.  An empty word adds none. -/
def require (mark : Char) (word : List Char) (c : Compound) : Compound :=
  if word.isEmpty then c
  else if mark = '#' then { c with id := some (String.ofList word) }
  else if mark = '.' then { c with classes := c.classes ++ [String.ofList word] }
  else { c with tag := some (Text.lowerAscii (String.ofList word)) }

/-- Read on, `word` being what was read since `mark`, latest character first. -/
def scan (mark : Char) (word : List Char) (c : Compound) : List Char → Compound
  | [] => c.require mark word.reverse
  | d :: rest =>
      if d = '#' ∨ d = '.' then scan d [] (c.require mark word.reverse) rest
      else scan mark (d :: word) c rest

def read (s : String) : Compound :=
  scan ' ' [] any s.toList

def fits (c : Compound) (content : Content) : Bool :=
  (match c.tag with
    | some tag => tag = "*" || tag = content.tag
    | none => true) &&
  (match c.id with
    | some id => content.id = some id
    | none => true) &&
  c.classes.all fun name => content.hasClass name

end Compound

namespace Document

/-- The compounds of a selector, from the outside inwards. -/
def readSelector (selector : String) : List Compound :=
  (Text.words selector).map Compound.read

def fits (d : Document) (c : Compound) (e : Ref .element) : Bool :=
  match d.get? e with
  | some element => c.fits element.content
  | none => false

/-- Match compounds, from the inside outwards, on the way up from `cursor`,
stopping below `top`.  At most `steps` elements are looked at. -/
def climb (d : Document) (top : Ref .element) :
    Nat → List Compound → Option (Ref .element) → Bool
  | _, [], _ => true
  | 0, _ :: _, _ => false
  | _ + 1, _ :: _, none => false
  | steps + 1, wanted :: outer, some e =>
      if e = top then false
      else if d.fits wanted e then d.climb top steps outer (d.parent e)
      else d.climb top steps (wanted :: outer) (d.parent e)

/-- The element matches a selector given from the inside outwards. -/
def accepts (d : Document) (top : Ref .element) (inwards : List Compound) (e : Ref .element) : Bool :=
  match inwards with
  | [] => false
  | last :: outer => d.fits last e && d.climb top d.elements.length outer (d.parent e)

/-- The first element below `top` that a selector finds. -/
def query (d : Document) (top : Ref .element) (selector : String) : Option (Ref .element) :=
  let inwards := (readSelector selector).reverse
  if inwards.isEmpty then none else (d.descendants top).find? (d.accepts top inwards)

end Document

end LiveBinding
