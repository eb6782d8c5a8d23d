/-
# LiveBinding.Configuration.Error -- what can be wrong with a configuration

A configuration cannot be read, is not of the right shape, or names things that
do not fit together.  In the last case every problem is listed.
-/
import LiveBinding.Declaration.Fault
import LiveBinding.Template

namespace LiveBinding

set_option autoImplicit false

/-- A problem found by validation. -/
inductive Problem where
  | emptySelector
  | emptyDeclaration (selector : String)
  | invalidDeclaration (selector : String) (offset : Nat) (fault : Declaration.Fault)
  | unresolvedName (selector name : String)
  | invalidTemplate (property : String) (fault : Template.Fault)
  | duplicateId (id : String)
  deriving DecidableEq

namespace Problem

def reason (offset : Nat) (fault : Declaration.Fault) : String :=
  fault.message ++ " (at offset " ++ toString offset ++ ")"

/-- The wording of a problem. -/
def message : Problem → String
  | .emptySelector => "Binding declared for an empty selector"
  | .emptyDeclaration selector => "Selector '" ++ selector ++ "' has an empty binding declaration"
  | .invalidDeclaration selector offset fault =>
      "Selector '" ++ selector ++ "' has an invalid declaration: " ++ reason offset fault
  | .unresolvedName selector name =>
      "Selector '" ++ selector ++ "' references unknown attribute '" ++ name ++ "'"
  | .invalidTemplate property fault =>
      "Computed property '" ++ property ++ "' has an invalid template: " ++ fault.message
  | .duplicateId id => "Duplicate element id: '" ++ id ++ "'"

end Problem

/-- A configuration that cannot be used. -/
inductive ConfigurationError where
  /-- The file could not be read. -/
  | unreadable (reason : String)
  /-- The text is no configuration. -/
  | malformed (reason : String)
  /-- Validation found problems. -/
  | invalid (problems : List Problem)

namespace ConfigurationError

/-- The wording of the error. -/
def message : ConfigurationError → String
  | .unreadable reason => "I/O error: " ++ reason
  | .malformed reason => "YAML error: " ++ reason
  | .invalid problems =>
      "Configuration validation failed:\n" ++ "\n".intercalate (problems.map Problem.message)

def causes : ConfigurationError → List String
  | .unreadable reason => [message (.unreadable reason), reason]
  | .malformed reason => [message (.malformed reason), reason]
  | .invalid problems => [message (.invalid problems)]

end ConfigurationError

end LiveBinding
