/-
# LiveBinding.Document.Content -- what one element shows

The content of an element is everything it has apart from its place in the
tree and its listeners: tag, identifier, classes, attributes, properties,
styles, text and markup, form value, visibility.

Text and markup are two faces of the inside of an element.  Setting the text
writes the markup that shows it (`escape`); setting the markup leaves as text
what stands outside its tags (`stripTags`).
-/
import LiveBinding.Json.Text
import LiveBinding.Text.Blank

namespace LiveBinding

set_option autoImplicit false

/-- The content of an element. -/
structure Content where
  tag : String
  id : Option String
  classes : List String
  attributes : Index String
  properties : Index Json
  styles : Index String
  html : String
  text : String
  value : String
  visible : Bool

namespace Content

/-- An element as it is created. -/
def ofTag (tag : String) : Content where
  tag := Text.lowerAscii tag
  id := none
  classes := []
  attributes := []
  properties := []
  styles := []
  html := ""
  text := ""
  value := ""
  visible := true

def replaceChar (c : Char) (substitute : List Char) (cs : List Char) : List Char :=
  cs.flatMap fun d => if d = c then substitute else [d]

/-- The markup that shows a text: ampersands first, then angle brackets. -/
def escape (cs : List Char) : List Char :=
  replaceChar '>' "&gt;".toList (replaceChar '<' "&lt;".toList (replaceChar '&' "&amp;".toList cs))

/-- What stands outside tags; `inTag` tells whether a tag is open. -/
def stripTags (inTag : Bool) : List Char → List Char
  | [] => []
  | c :: rest =>
      if c = '<' then stripTags true rest
      else if c = '>' then stripTags false rest
      else if inTag then stripTags inTag rest
      else c :: stripTags inTag rest

def setText (text : String) (c : Content) : Content :=
  { c with text := text, html := String.ofList (escape text.toList) }

def setHtml (html : String) (c : Content) : Content :=
  { c with html := html, text := String.ofList (stripTags false html.toList) }

def setAttribute (name : String) (value : Option String) (c : Content) : Content :=
  match value with
  | some value => { c with attributes := Index.place name value c.attributes }
  | none => { c with attributes := Index.remove name c.attributes }

/-- A property; null when it is not set. -/
def property (name : String) (c : Content) : Json :=
  (Index.get? name c.properties).getD .null

def setProperty (name : String) (value : Json) (c : Content) : Content :=
  { c with properties := Index.place name value c.properties }

def hasClass (name : String) (c : Content) : Bool :=
  name ∈ c.classes

/-- Add a class at the end, or drop it. -/
def toggleClass (name : String) (enabled : Bool) (c : Content) : Content :=
  if enabled then
    if c.hasClass name then c else { c with classes := c.classes ++ [name] }
  else { c with classes := c.classes.filter (· ≠ name) }

/-- Set a style; the empty value removes it. -/
def setStyle (name value : String) (c : Content) : Content :=
  if value = "" then { c with styles := Index.remove name c.styles }
  else { c with styles := Index.place name value c.styles }

def setVisible (visible : Bool) (c : Content) : Content :=
  { c with visible := visible }

def setValue (value : Json) (c : Content) : Content :=
  { c with value := value.displayText }

def setId (id : String) (c : Content) : Content :=
  { c with id := some id }

end Content

end LiveBinding
