/-
# LiveBinding.Run.Bind -- binding views

Binding a view first releases its former bindings.  Then every declaration
whose selector finds an element is read and resolved, and only when all of them
are is any element touched.  Selectors that find nothing are skipped.
-/
import LiveBinding.Declaration.Reading
import LiveBinding.Run.Attach

namespace LiveBinding.Run

set_option autoImplicit false

variable {σ : Type}

/-- Read a declaration and resolve it. -/
def resolve (selector text : String) (catalog : Catalog) (env : Environment) :
    Except Error Resolved :=
  match Declaration.read selector text with
  | .ok declaration => declaration.resolve catalog env
  | .error e => .error (.declaration e)

/-- Resolve the declarations whose selectors find an element. -/
def resolveAll (v : View) (env : Environment) :
    List (String × String) → Run σ (List (Ref .element × Resolved))
  | [] => pure []
  | (selector, text) :: rest => do
      match ((← world).documents.get? v.document).bind (·.query v.root selector) with
      | none =>
          alter (.report (.selectorSkipped selector))
          resolveAll v env rest
      | some element =>
          let first ← ofExcept (resolve selector text v.catalog env)
          let others ← resolveAll v env rest
          pure ((element, first) :: others)

def tagOf (w : World σ) (document : Ref .document) (element : Ref .element) : String :=
  match (w.documents.get? document).bind (·.get? element) with
  | some element => element.content.tag
  | none => ""

/-- Attach resolved declarations; when one cannot be attached, those attached
before it are disposed. -/
def attachAll (v : View) (env : Environment) :
    List (Ref .element × Resolved) → Run σ (List (Ref .binding))
  | [] => pure []
  | (element, resolved) :: rest => do
      let editable := v.isEditable (tagOf (← world) v.document element)
      let first ← attach v.document element env editable resolved
      match ← attempt (attachAll v env rest) with
      | .ok others => pure (first :: others)
      | .error error =>
          alter (.dispose first)
          fail error

def environmentOf (w : World σ) (model : Ref .model) : Environment :=
  match w.models.get? model with
  | some m => .ofNames model m.names
  | none => []

/-- Bind the declarations of a view. -/
def bindView (view : Ref .view) : Run σ Unit := do
  alter (.unbindView view)
  let w ← world
  match w.views.get? view with
  | none => pure ()
  | some v =>
      if v.declarations.isEmpty then pure ()
      else
        let env := environmentOf w v.model
        let resolved ← resolveAll v env v.declarations
        let bindings ← attachAll v env resolved
        alter (.report (.viewBound v.declarations.length bindings.length))
        alter fun w =>
          { w with views := w.views.update view fun v => { v with bindings := bindings } }

end LiveBinding.Run
