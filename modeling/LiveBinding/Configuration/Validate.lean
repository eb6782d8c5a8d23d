/-
# LiveBinding.Configuration.Validate -- every problem of a configuration

Three passes, each listing all it finds: templates that do not parse; selectors
and declarations that are blank, do not parse, or use a name that is neither an
attribute nor computed (each such name once per declaration, in order of first
use); identifiers of elements that were used before, in preorder.

Operators are not looked at: a view may have operators of its own.
-/
import LiveBinding.Configuration.Basic
import LiveBinding.Declaration.Reading

namespace LiveBinding.Configuration

set_option autoImplicit false

/-- The templates that do not parse. -/
def templateProblems : Fields ComputedEntry → List Problem
  | [] => []
  | (name, entry) :: rest =>
      match Template.read entry.template with
      | .ok _ => templateProblems rest
      | .error fault => .invalidTemplate name fault :: templateProblems rest

def knownNames (c : Configuration) : List String :=
  Fields.keys c.attributes ++ Fields.keys c.computed

/-- The unknown names among `names`, each once; `reported` are those already
found. -/
def unknownNames (known reported : List String) : List String → List String
  | [] => []
  | name :: rest =>
      if name ∈ known ∨ name ∈ reported then unknownNames known reported rest
      else name :: unknownNames known (name :: reported) rest

/-- The problems of one declaration. -/
def bindingProblems (known : List String) (selector text : String) : List Problem :=
  if Text.isBlankText selector then [.emptySelector]
  else if Text.isBlankText text then [.emptyDeclaration selector]
  else
    match Declaration.read selector text with
    | .error e => [.invalidDeclaration selector e.offset e.fault]
    | .ok d => (unknownNames known [] (d.names.map (·.1))).map (.unresolvedName selector)

/-- Each identifier that stands in `seen` or earlier in the list. -/
def repeatedIds (seen : List String) : List String → List String
  | [] => []
  | id :: rest =>
      if id ∈ seen then id :: repeatedIds seen rest else repeatedIds (id :: seen) rest

def problems (c : Configuration) : List Problem :=
  templateProblems c.computed ++
    c.bindings.flatMap (fun binding => bindingProblems c.knownNames binding.1 binding.2) ++
    (repeatedIds [] (Fixture.allIds c.elements)).map .duplicateId

def validate (c : Configuration) : Except ConfigurationError Configuration :=
  if c.problems.isEmpty then .ok c else .error (.invalid c.problems)

end LiveBinding.Configuration
