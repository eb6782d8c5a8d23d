/-
# LiveBinding.View -- bindings for everything below one element

A view has a root element, a model, and declarations by selector.  Binding it
wires the first element below the root that each selector finds.  Elements with
an editable tag also write what is edited back into the model.
-/
import LiveBinding.Binding.Basic

namespace LiveBinding

set_option autoImplicit false

/-- A root element and a model with the bindings between them. -/
structure View where
  document : Ref .document
  root : Ref .element
  model : Ref .model
  /-- Selectors with their declarations. -/
  declarations : Fields String
  operators : Catalog
  editableTags : List String
  bindings : List (Ref .binding)

namespace View

/-- The tags that are editable unless a view says otherwise. -/
def standardEditableTags : List String := ["input", "select", "textarea"]

/-- A view that is not bound. -/
def ofDeclarations (document : Ref .document) (root : Ref .element) (model : Ref .model)
    (declarations : List (String × String)) : View where
  document := document
  root := root
  model := model
  declarations := Fields.ofEntries declarations
  operators := []
  editableTags := standardEditableTags
  bindings := []

/-- Elements with this tag are editable; letter case does not matter. -/
def isEditable (v : View) (tag : String) : Bool :=
  v.editableTags.any fun editable => Text.lowerAscii editable = Text.lowerAscii tag

def isBound (v : View) : Bool :=
  !v.bindings.isEmpty

def catalog (v : View) : Catalog :=
  Catalog.standard.overlaid v.operators

end View

end LiveBinding
