/-
# LiveBinding.Error -- how work on models and views can fail

Declarations that cannot be read or applied fail when a view is bound; getters,
setters and listeners fail in the write that set them off.
-/
import LiveBinding.Configuration.Error
import LiveBinding.Journal.Message

namespace LiveBinding

set_option autoImplicit false

/-- A failure. -/
inductive Error where
  /-- A declaration cannot be read, or uses a name that nobody defines. -/
  | declaration (cause : DeclarationError)
  /-- A declaration uses an operator that is not in the catalog. -/
  | unknownOperator (selector operator : String)
  /-- A computed property was defined without a getter. -/
  | noGetter (name : String)
  /-- A computed property without a setter was written. -/
  | noSetter (name : String)
  /-- Computed properties depend on each other in a circle. -/
  | cyclicDependency (cycle : List String)
  /-- A getter or setter failed. -/
  | computation (name reason : String)
  /-- A configuration cannot be used. -/
  | configuration (cause : ConfigurationError)

/-- The wording of a failure. -/
def Error.message : Error → String
  | .declaration cause => cause.message
  | .unknownOperator selector operator =>
      "invalid binding for \"" ++ selector ++ "\": unknown operator '" ++ operator ++ "'"
  | .noGetter name => "computed property '" ++ name ++ "' has no getter defined"
  | .noSetter name => "computed property '" ++ name ++ "' has no setter defined"
  | .cyclicDependency cycle => "cyclic computed dependency detected: " ++ Message.arrows cycle
  | .computation name reason => "computed property '" ++ name ++ "' failed: " ++ reason
  | .configuration cause => cause.message

end LiveBinding
