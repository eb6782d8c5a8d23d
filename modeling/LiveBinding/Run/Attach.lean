/-
# LiveBinding.Run.Attach -- applying declarations to elements

Attaching a declaration applies its operators one after another: compile the
expression, read it, hand the value to the operator, and subscribe to what was
read.  An editable element whose operator reads back, and whose expression is a
bare name, also listens to its edits and writes them to that name.

When a dependency fires, the slot is applied anew.
-/
import LiveBinding.Run.Write

namespace LiveBinding.Run

set_option autoImplicit false

variable {σ : Type}

def applyOperator (document : Ref .document) (element : Ref .element) (operator : Operator)
    (value : Json) : Run σ Unit :=
  alter (.editDocument document (.amend element (operator.apply value)))

def alterBinding (binding : Ref .binding) (f : Binding → Binding) : Run σ Unit :=
  alter fun w => { w with bindings := w.bindings.update binding f }

def compileOperator (b : Binding) (operator : String) : Run σ Compilation := do
  match b.declaration.compileOperator operator b.env (← world).sight with
  | .ok compilation => pure compilation
  | .error e => fail (.declaration e)

def listenForEdits (binding : Ref .binding) (b : Binding) (slot : Nat) : Run σ Unit := do
  let id ← produce (World.listen b.document b.element (.push binding slot))
  alterBinding binding fun b => { b with listeners := b.listeners ++ [id] }

/-- Subscribe a slot to its dependencies. -/
def subscribeSlot (binding : Ref .binding) (slot : Nat) : List Dependency → Run σ Unit
  | [] => pure ()
  | d :: rest => do
      let subscription ← produce (World.subscribe d.hub d.event (.reapply binding slot))
      alterBinding binding fun b =>
        { b with subscriptions := b.subscriptions ++ subscription.toList }
      subscribeSlot binding slot rest

/-- Apply an operator for the first time. -/
def applySlot (binding : Ref .binding) (editable : Bool) (name : String) (operator : Operator) :
    Run σ Unit := do
  match (← world).bindings.get? binding with
  | none => pure ()
  | some b =>
      let compilation ← compileOperator b name
      let sight := (← world).sight
      let dependencies := compilation.dependencies sight
      let dirty := compilation.compiled.isDirty
      let slot := b.slots.length
      applyOperator b.document b.element operator (compilation.compiled.value sight)
      if editable && operator.readable && compilation.compiled.isLeaf then
        listenForEdits binding b slot
      alter (.report (.operatorApplied b.selector name dirty dependencies.length))
      alterBinding binding fun b =>
        { b with slots := b.slots ++
            [⟨name, operator, compilation.compiled, dirty, Collector.events dependencies, 0⟩] }
      subscribeSlot binding slot dependencies

/-- Apply operators for the first time, from the first to the last. -/
def applySlots (binding : Ref .binding) (editable : Bool) : List (String × Operator) → Run σ Unit
  | [] => pure ()
  | (name, operator) :: rest => do
      applySlot binding editable name operator
      applySlots binding editable rest

/-- Attach a declaration to an element.  When an operator cannot be applied,
those applied before it are disposed. -/
def attach (document : Ref .document) (element : Ref .element) (env : Environment)
    (editable : Bool) (resolved : Resolved) : Run σ (Ref .binding) := do
  let binding ← produce fun w =>
    (w.bindings.fresh,
      { w with bindings := w.bindings.insert (.start document element resolved.declaration env) })
  match ← attempt (applySlots binding editable resolved.operators) with
  | .ok _ => pure binding
  | .error error =>
      alter (.dispose binding)
      fail error

/-- Compile the expression of a slot anew. -/
def recompile (binding : Ref .binding) (b : Binding) (index : Nat) (slot : Slot) :
    Run σ Compiled := do
  if slot.dirty then
    let compilation ← compileOperator b slot.name
    alterBinding binding (.modifySlot index fun slot =>
      { slot with
        compiled := compilation.compiled
        recompilations := slot.recompilations + 1 })
    pure compilation.compiled
  else pure slot.compiled

/-- Apply a slot anew after an event. -/
def reapply (binding : Ref .binding) (index : Nat) (event : String) : Run σ Unit := do
  let w ← world
  match w.bindings.get? binding with
  | none => pure ()
  | some b =>
      match b.slots[index]? with
      | none => pure ()
      | some slot =>
          if w.keepsDocument b.document then
            let message := Message.operatorReapplied b.selector slot.name event slot.dirty
            within (message.span "operator_reapply") do
              let compiled ← recompile binding b index slot
              applyOperator b.document b.element slot.operator (compiled.value (← world).sight)
              alter (.report message)

/-- Write the value of an edited element to the name its slot reads. -/
def push (fire : Fire σ) (binding : Ref .binding) (index : Nat) : Run σ Unit := do
  let w ← world
  match w.bindings.get? binding with
  | none => pure ()
  | some b =>
      match b.slots[index]?, (w.documents.get? b.document).bind (·.get? b.element) with
      | some slot, some element =>
          match slot.operator.read element.content, slot.compiled.leaf? with
          | some value, some accessor =>
              alter (.report (.valuePushed b.selector accessor.name))
              assign fire accessor value
          | _, _ => pure ()
      | _, _ => pure ()

end LiveBinding.Run
