/-
# LiveBinding.Document.Markup -- an element and what is below it, as text

Every element stands on a line of its own, indented by two blanks a level.  An
element with children shows them and not its own inside; one without shows its
markup, or its text when the markup is empty.
-/
import LiveBinding.Document.Basic

namespace LiveBinding.Document

set_option autoImplicit false

/-- The opening tag of an element. -/
def openTag (c : Content) : String :=
  let id := (c.id.map fun id => " id=\"" ++ id ++ "\"").getD ""
  let classes :=
    if c.classes.isEmpty then "" else " class=\"" ++ " ".intercalate c.classes ++ "\""
  let attributes :=
    String.join (c.attributes.map fun entry => " " ++ entry.1 ++ "=\"" ++ entry.2 ++ "\"")
  let styles :=
    if c.styles.isEmpty then ""
    else " style=\"" ++ "; ".intercalate (c.styles.map fun entry => entry.1 ++ ": " ++ entry.2) ++ "\""
  let properties :=
    String.join (c.properties.map fun entry => " [" ++ entry.1 ++ "=" ++ entry.2.render ++ "]")
  let value := if c.value = "" then "" else " value=\"" ++ c.value ++ "\""
  let hidden := if c.visible then "" else " hidden"
  "<" ++ c.tag ++ id ++ classes ++ attributes ++ styles ++ properties ++ value ++ hidden ++ ">"

/-- The inside of an element without children. -/
def inside (c : Content) : String :=
  if c.html = "" then c.text else c.html

/-- The text of an element at `indent` levels; `depth` bounds the levels
below it. -/
def markupAt (d : Document) : Nat → Nat → Ref .element → String
  | 0, _, _ => ""
  | depth + 1, indent, e =>
      match d.get? e with
      | none => ""
      | some element =>
          let margin := Text.repeated indent "  "
          let body :=
            if element.children.isEmpty then inside element.content
            else
              "\n" ++ String.join (element.children.map (markupAt d depth (indent + 1))) ++ margin
          margin ++ openTag element.content ++ body ++ "</" ++ element.content.tag ++ ">\n"

/-- The text of an element and of everything below it. -/
def markup (d : Document) (e : Ref .element) : String :=
  d.markupAt (d.elements.length + 1) 0 e

/-- The text of everything below the root. -/
def markupOfRoot (d : Document) : String :=
  String.join ((d.children root).map d.markup)

end LiveBinding.Document
