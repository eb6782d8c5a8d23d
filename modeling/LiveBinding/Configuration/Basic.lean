/-
# LiveBinding.Configuration.Basic -- a view written down

A configuration holds the markup of a document, the attributes of a model,
computed properties given by templates, and declarations by selector.  All
lists keep the order in which they are written.
-/
import LiveBinding.Document.Fixture
import LiveBinding.Template
import LiveBinding.View

namespace LiveBinding

set_option autoImplicit false

/-- A computed property that fills in a template. -/
structure ComputedEntry where
  template : String
  isVirtual : Bool
  deriving DecidableEq

/-- A view written down. -/
structure Configuration where
  editableTags : List String
  attributes : Attributes
  computed : Fields ComputedEntry
  elements : List Fixture
  bindings : Fields String

namespace Configuration

/-- Nothing but the standard editable tags. -/
def empty : Configuration := ⟨View.standardEditableTags, [], [], [], []⟩

end Configuration

end LiveBinding
