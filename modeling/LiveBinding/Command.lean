/-
# LiveBinding.Command -- showing a view on the command line

The command loads a configuration, binds its view, and shows the markup; then it
makes assignments one after another and shows the markup after each of them.

Arguments are all read before the file is.  A value is read as JSON when it
is JSON and taken as a text otherwise.  A failure ends the command; what was
shown before stays shown.
-/
import LiveBinding.Configuration.Build
import LiveBinding.Configuration.Reading
import LiveBinding.Document.Markup
import LiveBinding.Json.Reading
import LiveBinding.Run.Dispatch

namespace LiveBinding

set_option autoImplicit false

/-- The failure, and what caused it. -/
def Error.causes : Error → List String
  | .configuration cause => cause.causes
  | .computation name reason => [message (.computation name reason), reason]
  | other => [other.message]

namespace Command

/-- What a run of the command leaves behind. -/
structure Outcome where
  code : Nat
  output : String
  errors : String
  deriving DecidableEq

/-! ## Arguments -/

def usage (program : String) : String :=
  "Usage: " ++ program ++ " <view.yaml> [name=value ...]\n" ++
    "Example: " ++ program ++ " view.yaml firstName=Amy subscribed=true\n"

structure Assignment where
  name : String
  value : Json

/-- Read an argument such as `name=value`. -/
def Assignment.read (argument : String) : Except String Assignment :=
  match Text.splitFirst ['='] argument.toList with
  | none => .error ("expected name=value, got '" ++ argument ++ "'")
  | some (name, written) =>
      let text := String.ofList written
      .ok ⟨String.ofList (Text.trimChars name), (Json.read? text).getD (.text text)⟩

/-! ## Reporting failures -/

/-- The lines of a text, the first after `first` and the others after `margin`. -/
def hanging (first margin : String) (text : String) : String :=
  first ++ ("\n" ++ margin).intercalate (text.splitOn "\n")

/-- A cause in a list of several. -/
def numbered (number : Nat) (cause : String) : String :=
  let digits := toString number
  hanging (Text.repeated (5 - digits.length) " " ++ digits ++ ": ") "       " cause

/-- A failure with its causes, outermost first. -/
def report (failure : String) (causes : List String) : String :=
  "Error: " ++ failure ++
    (match causes with
      | [] => ""
      | [cause] => "\n\nCaused by:\n" ++ hanging "    " "    " cause
      | several =>
          "\n\nCaused by:\n" ++
            "\n".intercalate (several.zipIdx.map fun cause => numbered cause.2 cause.1)) ++
    "\n"

/-- The report of a list of causes, of which the first is the failure. -/
def reportAll : List String → String
  | [] => report "" []
  | failure :: causes => report failure causes

/-! ## Showing a view -/

def display (text : String) : Script String Unit :=
  .change (· ++ text)

def displayMarkup (document : Ref .document) : Script String Unit := do
  match (← Script.world).documents.get? document with
  | some d => display (d.markupOfRoot ++ "\n")
  | none => return ()

/-- The line above an assignment. -/
def rule : String :=
  Text.repeated 40 "─" ++ "\n"

/-- Make an assignment and show the markup after it. -/
def assign (document : Ref .document) (model : Ref .model) (a : Assignment) :
    Script String Unit := do
  Script.write model [(a.name, a.value)]
  display (rule ++ "✏️  " ++ a.name ++ " = " ++ a.value.render ++ "\n")
  displayMarkup document

def bindingCount {σ : Type} (w : World σ) (view : Ref .view) : Nat :=
  match w.views.get? view with
  | some v => v.bindings.length
  | none => 0

/-- Show a configuration and make assignments. -/
def present (c : Configuration) (assignments : List Assignment) :
    Script String Unit := do
  let document ← Script.openDocument
  let built ← c.buildView document
  Script.bindView built.1
  let w ← Script.world
  display ("🔗 Bound " ++ toString (bindingCount w built.1) ++ " of " ++
    toString c.bindings.length ++ " selectors\n")
  displayMarkup document
  assignments.forM (assign document built.2)
  Script.act (.unbindView built.1)

def dispatchDepth : Nat := 4096

/-- What is shown for a configuration and assignments. -/
def presented (c : Configuration) (assignments : List Assignment) : Outcome :=
  let work : Run String Unit := Run.run dispatchDepth (present c assignments).toProgram
  let result := ExceptT.run work ⟨.empty, [], ""⟩
  match result.1 with
  | .ok _ => ⟨0, result.2.client, ""⟩
  | .error (.failed e) => ⟨1, result.2.client, reportAll e.causes⟩
  | .error .exhausted => ⟨1, result.2.client, report "events are nested too deeply" []⟩

/-- Run the command, `program` being its name and `readFile` giving the content
of a file or the reason why it cannot be read. -/
def run (program : String) (readFile : String → Except String String) (arguments : List String) :
    Outcome :=
  match arguments with
  | [] => ⟨1, "", usage program⟩
  | path :: rest =>
      match rest.mapM Assignment.read with
      | .error message => ⟨1, "", report message []⟩
      | .ok assignments =>
          match Configuration.ofFileValidated (readFile path) with
          | .error e => ⟨1, "", report ("failed to load " ++ path) e.causes⟩
          | .ok c => presented c assignments

end Command

end LiveBinding
