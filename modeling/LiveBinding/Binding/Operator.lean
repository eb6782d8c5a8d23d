/-
# LiveBinding.Binding.Operator -- what a value does to an element

An operator applies a value to the content of an element, and may read a value
back from it.  A catalog holds operators by name.

| Name        | Reads back | Effect                                            |
|-------------|------------|---------------------------------------------------|
| `attr`      | no         | sets each attribute of an object; null and `false` remove it |
| `checked`   | yes        | the property `checked`                            |
| `className` | no         | toggles each class of an object by its truth      |
| `css`       | no         | sets each style of an object                      |
| `enabled`   | no         | the property `disabled`, inverted                 |
| `html`      | no         | the markup inside                                 |
| `text`      | no         | the text inside                                   |
| `toggle`    | no         | visibility                                        |
| `value`     | yes        | the form value                                    |

The operators that take an object leave the element alone for any other value.
-/
import LiveBinding.Document.Content

namespace LiveBinding

set_option autoImplicit false

/-- What a value does to an element, and what is read back from it. -/
structure Operator where
  apply : Json → Content → Content
  read : Content → Option Json
  readable : Bool

namespace Operator

def writeOnly (apply : Json → Content → Content) : Operator :=
  ⟨apply, fun _ => none, false⟩

/-- Apply `entry` for each member of an object, from the first to the last. -/
def eachMember (entry : String → Json → Content → Content) (value : Json) (c : Content) : Content :=
  value.members.foldl (fun c member => entry member.1 member.2 c) c

/-- What `attr` does with one member. -/
def setAttributeTo (name : String) (value : Json) (c : Content) : Content :=
  match value with
  | .null => c.setAttribute name none
  | .bool false => c.setAttribute name none
  | other => c.setAttribute name (some other.displayText)

def attr : Operator :=
  writeOnly (eachMember setAttributeTo)

def checked : Operator where
  apply value c := c.setProperty "checked" (.bool value.isTruthy)
  read c := some (.bool (c.property "checked").isTruthy)
  readable := true

def className : Operator :=
  writeOnly (eachMember fun name value c => c.toggleClass name value.isTruthy)

def css : Operator :=
  writeOnly (eachMember fun name value c => c.setStyle name value.displayText)

def enabled : Operator :=
  writeOnly fun value c => c.setProperty "disabled" (.bool (!value.isTruthy))

def html : Operator :=
  writeOnly fun value c => c.setHtml value.displayText

def text : Operator :=
  writeOnly fun value c => c.setText value.displayText

def toggle : Operator :=
  writeOnly fun value c => c.setVisible value.isTruthy

def value : Operator where
  apply value c := c.setValue value
  read c := some (.text c.value)
  readable := true

end Operator

abbrev Catalog := Index Operator

namespace Catalog

/-- The nine operators that are always there. -/
def standard : Catalog :=
  [("attr", .attr), ("checked", .checked), ("className", .className), ("css", .css),
    ("enabled", .enabled), ("html", .html), ("text", .text), ("toggle", .toggle),
    ("value", .value)]

def overlaid (catalog overrides : Catalog) : Catalog :=
  Index.placeAll overrides catalog

end Catalog

end LiveBinding
