/-
# LiveBinding.Configuration.Reading -- configurations from what is written down

| Field        | Written as                                    | When left out   |
|--------------|-----------------------------------------------|-----------------|
| `options`    | a record with the list `editable_tags`        | standard tags   |
| `attributes` | a record of values                            | none            |
| `computed`   | a record of records `template`, `virtual`     | none            |
| `elements`   | a list of elements                            | none            |
| `bindings`   | a record of texts                             | none            |

An element has the fields `tag`, `id`, `classes`, `text`, `value` and
`children`, of which only `tag` must be there.  A computed property must have a
template, and is virtual unless it says otherwise.
-/
import LiveBinding.Configuration.Error
import LiveBinding.Configuration.Validate
import LiveBinding.Configuration.Written

namespace LiveBinding

set_option autoImplicit false

/-- An element that is written down; `depth` bounds how deep elements nest. -/
def Fixture.ofWritten : Nat → Written → Except Mismatch Fixture
  | 0, _ => .error .tooDeep
  | depth + 1, w => do
      let part ← w.parts ["tag", "id", "classes", "text", "value", "children"]
      let tag ← Written.required "tag" Written.text (part "tag")
      let id ← Written.orDefault none Written.optionalText (part "id")
      let classes ← Written.orDefault [] Written.texts (part "classes")
      let text ← Written.orDefault none Written.optionalText (part "text")
      let value ← Written.orDefault none Written.optionalText (part "value")
      let children ← Written.orDefault [] Written.items (part "children")
      .ok (.element tag id classes text value (← children.mapM (ofWritten depth)))

def Fixture.ofJson (value : Json) : Except Mismatch Fixture :=
  let w := Written.ofJson value
  Fixture.ofWritten (w.depth + 1) w

/-- A computed property that is written down. -/
def ComputedEntry.ofWritten (w : Written) : Except Mismatch ComputedEntry := do
  let part ← w.parts ["template", "virtual"]
  let template ← Written.required "template" Written.text (part "template")
  let isVirtual ← Written.orDefault true Written.flag (part "virtual")
  .ok ⟨template, isVirtual⟩

namespace Configuration

def optionsOf (w : Written) : Except Mismatch (List String) := do
  let part ← w.parts ["editable_tags"]
  Written.orDefault View.standardEditableTags Written.texts (part "editable_tags")

/-- A configuration that is written down. -/
def ofWritten (w : Written) : Except Mismatch Configuration := do
  let part ← w.parts ["options", "attributes", "computed", "elements", "bindings"]
  let editableTags ← Written.orDefault View.standardEditableTags optionsOf (part "options")
  let attributes ← Written.orDefault [] (Written.named Written.value) (part "attributes")
  let computed ← Written.orDefault [] (Written.named ComputedEntry.ofWritten) (part "computed")
  let elements ← Written.orDefault [] Written.items (part "elements")
  let bindings ← Written.orDefault [] (Written.named Written.text) (part "bindings")
  .ok ⟨editableTags, attributes, computed,
    ← elements.mapM (Fixture.ofWritten (w.depth + 1)), bindings⟩

def ofJson (value : Json) : Except Mismatch Configuration :=
  ofWritten (.ofJson value)

/-- How deep the collections of a YAML text may be nested. -/
def depthLimit : Nat := 128

/-- A configuration that is written down in YAML; a text without a document is
the empty configuration. -/
def ofYaml (text : String) : Except ConfigurationError Configuration :=
  match Yaml.Node.ofText text with
  | .error fault => .error (.malformed fault.message)
  | .ok none => .ok .empty
  | .ok (some node) =>
      let w := Written.ofNode node
      if depthLimit < w.depth then .error (.malformed Mismatch.tooDeep.message)
      else
        match ofWritten w with
        | .ok configuration => .ok configuration
        | .error mismatch => .error (.malformed mismatch.message)

/-- The configuration in a file, given the content of the file or the reason
why it cannot be read. -/
def ofFile (content : Except String String) : Except ConfigurationError Configuration :=
  match content with
  | .ok text => ofYaml text
  | .error reason => .error (.unreadable reason)

/-- The configuration in a file, provided that validation finds no problem. -/
def ofFileValidated (content : Except String String) : Except ConfigurationError Configuration := do
  validate (← ofFile content)

end Configuration

end LiveBinding
