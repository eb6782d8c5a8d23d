/-
# LiveBinding.Configuration.Build -- from a configuration to a view

Building mounts the markup under the root of a document, then makes a model
with the attributes and the computed properties, and then a view that is not
bound yet.  A template that does not parse is found before the model is made,
but after the markup is mounted.
-/
import LiveBinding.Configuration.Basic
import LiveBinding.Run.Script

namespace LiveBinding

set_option autoImplicit false

namespace Template

/-- Read the fields of segments, from the first to the last: the text that they
make. -/
def readFields {σ : Type} : List Segment → Reading σ String
  | [] => .done ""
  | .text value :: rest => (readFields rest).bind fun more => .done (value ++ more)
  | .field name :: rest =>
      (Reading.get name).bind fun value =>
        (readFields rest).bind fun more => .done (value.displayText ++ more)

def getter {σ : Type} (t : Template) : Getter σ :=
  (readFields t.segments).bind fun text => .done (Json.text text)

end Template

namespace Configuration

variable {σ : Type}

def definition (name : String) (entry : ComputedEntry) : Except Error (Definition σ) :=
  match Template.read entry.template with
  | .ok template => .ok ⟨some template.getter, none, entry.isVirtual, []⟩
  | .error fault => .error (.configuration (.invalid [.invalidTemplate name fault]))

/-- The definitions of computed properties, in order. -/
def definitions : Fields ComputedEntry → Except Error (List (String × Definition σ))
  | [] => .ok []
  | (name, entry) :: rest => do
      let first ← definition name entry
      let others ← definitions rest
      .ok ((name, first) :: others)

/-- Make a model and bind its computed properties.  When that fails the model
is let go. -/
def openModel (attributes : Attributes) (definitions : List (String × Definition σ)) :
    Script σ (Ref .model) := do
  let model ← Script.openModel attributes
  match ← (Script.bindComputed model definitions).attempt with
  | .ok _ => return model
  | .error error =>
      Script.act (.release (.model model))
      Script.fail error

def buildModel (c : Configuration) : Script σ (Ref .model) := do
  let definitions ← Script.ofExcept (definitions c.computed)
  openModel c.attributes definitions

/-- Mount the markup into a document, and make a model and a view of it. -/
def buildView (c : Configuration) (document : Ref .document) :
    Script σ (Ref .view × Ref .model) := do
  Script.act (.mount document Document.root c.elements)
  let model ← buildModel c
  let view := View.ofDeclarations document Document.root model c.bindings
  let view ← Script.openView { view with editableTags := c.editableTags }
  return (view, model)

end Configuration

end LiveBinding
