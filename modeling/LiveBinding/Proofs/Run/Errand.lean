/-
# LiveBinding.Proofs.Run.Errand -- what work does around its dispatches

A write, a binding of properties, a refresh, an edit: each does all its own work
first, then dispatches some signals, one after another until one of them fails, and
last lets go of what it held and resets the spans it was in, however that ended.

So work that dispatches is an errand: an opening, which dispatches nothing, settles
what there is to dispatch and to close (`Errand`).  The equations
of this module (`write_eq`, `refresh_eq`, ...) say that each piece of work is the
errand of its own opening, for any way of dispatching.  What is proved of openings,
of dispatches and of closings is then proved of all work.
-/
import LiveBinding.Proofs.Run.Result

namespace LiveBinding

set_option autoImplicit false

variable {σ α β : Type}

/-- What is done last, however the work before it ended. -/
inductive Closing where
  | release (handle : Handle)
  | resetSpans (spans : List Span)

def Closing.apply : Closing → World σ → World σ
  | .release handle, w => w.release handle
  | .resetSpans spans, w => { w with spans := spans }

/-- Signals to dispatch, one after another, and closings for when that has ended. -/
structure Errand where
  signals : List Signal
  closings : List Closing

namespace Errand

def nothing : Errand := ⟨[], []⟩

def close (errand : Errand) (w : World σ) : World σ :=
  errand.closings.foldl (fun w closing => closing.apply w) w

def closing (last : Closing) (errand : Errand) : Errand :=
  { errand with closings := errand.closings ++ [last] }

@[simp] theorem close_closing (last : Closing) (errand : Errand) (w : World σ) :
    (errand.closing last).close w = last.apply (errand.close w) := by
  rw [close, closing, List.foldl_append]
  rfl

end Errand

namespace Run

def fireAll (fire : Fire σ) : List Signal → Run σ Unit
  | [] => pure ()
  | signal :: rest => do
      fire signal
      fireAll fire rest

def errand (fire : Fire σ) (opening : Run σ Errand) : Run σ Unit := do
  let settled ← opening
  (fireAll fire settled.signals).lastly settled.close

theorem ext {work work' : Run σ α} (same : ∀ s, work.result s = work'.result s) : work = work' :=
  funext same

theorem fireAll_append (fire : Fire σ) (signals signals' : List Signal) :
    fireAll fire (signals ++ signals') = (do fireAll fire signals; fireAll fire signals') := by
  induction signals with
  | nil => rfl
  | cons signal rest ih =>
      show (fire signal >>= fun _ => fireAll fire (rest ++ signals')) = _
      rw [ih, fireAll, bind_assoc]

theorem errand_pure (fire : Fire σ) (settled : Errand) :
    errand fire (pure settled) = (fireAll fire settled.signals).lastly settled.close := rfl

@[simp] theorem errand_nothing (fire : Fire σ) : errand fire (pure .nothing) = pure () := rfl

theorem errand_bind (fire : Fire σ) (work : Run σ α) (next : α → Run σ Errand) :
    errand fire (work >>= next) = work >>= fun a => errand fire (next a) :=
  bind_assoc _ _ _

end Run

namespace Opening

/-- An opening whose errand closes something last; so does the opening, if it fails. -/
def closing (last : Closing) (opening : Run σ Errand) : Run σ Errand :=
  ExceptT.mk fun s =>
    match ExceptT.run opening s with
    | (.ok settled, t) => (.ok (settled.closing last), t)
    | (.error halt, t) => (.error halt, { t with world := last.apply t.world })

theorem result_closing (last : Closing) (opening : Run σ Errand) (s : State σ) :
    (closing last opening).result s =
      match opening.result s with
      | (.ok settled, t) => (.ok (settled.closing last), t)
      | (.error halt, t) => (.error halt, t.alter last.apply) := rfl

theorem errand_closing (fire : Fire σ) (last : Closing) (opening : Run σ Errand) :
    Run.errand fire (closing last opening) = (Run.errand fire opening).lastly last.apply := by
  refine Run.ext fun s => ?_
  rw [Run.result_lastly, Run.errand, Run.errand]
  rcases opened : opening.result s with ⟨halt | settled, t⟩
  · have closed : (closing last opening).result s = (.error halt, t.alter last.apply) := by
      rw [result_closing, opened]
    rw [Run.result_bind_error closed, Run.result_bind_error opened]
  · have closed : (closing last opening).result s = (.ok (settled.closing last), t) := by
      rw [result_closing, opened]
    rw [Run.result_bind_ok closed, Run.result_bind_ok opened, Run.result_lastly, Run.result_lastly]
    have closings : (settled.closing last).close = last.apply ∘ (settled.close (σ := σ)) :=
      funext (settled.close_closing last)
    rw [closings]
    rfl

/-! ## Openings -/

def keeping (handle : Handle) (opening : Run σ Errand) : Run σ Errand := do
  Run.alter (.hold handle)
  closing (.release handle) opening

def within (span : Span) (opening : Run σ Errand) : Run σ Errand := do
  let spans := (← Run.world).spans
  Run.alter fun w => { w with spans := spans ++ [span] }
  closing (.resetSpans spans) opening

def announcements (hub : Ref .hub) (changes : List (String × Json)) : List Signal :=
  changes.map (fun change => .event hub ⟨changeOf change.1, change.2⟩) ++
    if changes.isEmpty then [] else [.event hub ⟨changeEvent, .null⟩]

/-- Store attributes, and have what changed announced. -/
def writeStore (model : Ref .model) (pending : Attributes) : Run σ Errand := do
  match (← Run.world).models.get? model with
  | none => pure .nothing
  | some m =>
      let result := m.store.apply pending
      Run.alter fun w =>
        { w with models := w.models.update model fun m => { m with store := result.1 } }
      pure ⟨announcements m.hub result.2, []⟩

/-- Before a write is announced. -/
def write (model : Ref .model) (attributes : Attributes) : Run σ Errand :=
  keeping (.model model) do writeStore model (← Run.route model attributes [])

/-- Before an assignment is announced. -/
def assign (a : Accessor) (value : Json) : Run σ Errand := do
  if ((← Run.world).models.get? a.model).isSome then
    match value with
    | .object attributes => write a.model attributes
    | other => write a.model [(a.name, other)]
  else pure .nothing

/-- Before the first values of properties are announced. -/
def bindComputed (model : Ref .model) (definitions : List (String × Definition σ)) : Run σ Errand :=
  keeping (.model model) do
    Run.alter (.unbindComputed model)
    Run.buildAllOrNone model definitions
    Run.refuseCycle model
    match (← Run.world).models.get? model with
    | none => pure .nothing
    | some m => writeStore model m.initialWrites

/-- Before the new value of a property is announced. -/
def publish (model : Ref .model) (hub : Ref .hub) (property : Property σ) (value : Json) :
    Run σ Errand := do
  let message := Message.computedUpdated property.name property.isVirtual
  Run.alter (.report message)
  within (message.span "computed_update") do
    if property.isVirtual then pure ⟨announcements hub [(property.name, value)], []⟩
    else writeStore model [(property.name, value)]

/-- Before what a refresh found is announced. -/
def refresh (model : Ref .model) (name : String) : Run σ Errand := do
  match (← Run.world).models.get? model with
  | none => pure .nothing
  | some m =>
      match m.property? name with
      | none => pure .nothing
      | some property =>
          keeping (.model model) do
            let result ← Run.evaluate model name property.getter false
            if Run.isSettled property.value result.1 then pure .nothing
            else
              Run.alter fun w =>
                { w with models := w.models.update model (.setValue name result.1) }
              publish model m.hub property result.1

/-- Before an edited value is announced by the model it goes to. -/
def push (binding : Ref .binding) (index : Nat) : Run σ Errand := do
  let w ← Run.world
  match w.bindings.get? binding with
  | none => pure .nothing
  | some b =>
      match b.slots[index]?, (w.documents.get? b.document).bind (·.get? b.element) with
      | some slot, some element =>
          match slot.operator.read element.content, slot.compiled.leaf? with
          | some value, some accessor =>
              Run.alter (.report (.valuePushed b.selector accessor.name))
              assign accessor value
          | _, _ => pure .nothing
      | _, _ => pure .nothing

/-- Before what was typed is announced. -/
def typeInto (document : Ref .document) (element : Ref .element) (text : String) : Run σ Errand := do
  Run.alter (.editDocument document (.amend element (.setValue (.text text))))
  keeping (.document document) (pure ⟨[.edit document element], []⟩)

end Opening

namespace Run

open Opening (announcements)

variable (fire : Fire σ)

theorem keeping_errand (handle : Handle) (opening : Run σ Errand) :
    keeping handle (errand fire opening) = errand fire (Opening.keeping handle opening) := by
  rw [Opening.keeping, errand_bind, Opening.errand_closing]
  rfl

theorem within_errand (span : Span) (opening : Run σ Errand) :
    within span (errand fire opening) = errand fire (Opening.within span opening) := by
  simp only [Opening.within, errand_bind, Opening.errand_closing]
  rfl

theorem announce_eq (hub : Ref .hub) (changes : List (String × Json)) :
    announce fire hub changes = fireAll fire (announcements hub changes) := by
  have each : ∀ changes : List (String × Json),
      (changes.forM fun change => fire (.event hub ⟨changeOf change.1, change.2⟩)) =
        fireAll fire (changes.map fun change => .event hub ⟨changeOf change.1, change.2⟩) := by
    intro changes
    induction changes with
    | nil => rfl
    | cons change rest ih =>
        show (fire _ >>= fun _ => rest.forM _) = _
        rw [ih]
        rfl
  rw [announce, announcements, fireAll_append, each]
  cases changes with
  | nil => rfl
  | cons change rest => 
    show _ = (_ >>= fun _ => fire _ >>= fun _ => pure ())
    simp

theorem writeStore_eq (model : Ref .model) (pending : Attributes) :
    writeStore fire model pending = errand fire (Opening.writeStore model pending) := by
  rw [writeStore, Opening.writeStore, errand_bind]
  refine bind_congr fun w => ?_
  cases w.models.get? model with
  | none => rfl
  | some m =>
      simp only [errand_bind, errand_pure, announce_eq]
      rfl

theorem write_eq (model : Ref .model) (attributes : Attributes) :
    write fire model attributes = errand fire (Opening.write model attributes) := by
  simp only [write, Opening.write, writeStore_eq, ← errand_bind, keeping_errand]

theorem assign_eq (a : Accessor) (value : Json) :
    assign fire a value = errand fire (Opening.assign a value) := by
  unfold assign Opening.assign
  rw [errand_bind]
  refine bind_congr fun w => ?_
  by_cases there : (w.models.get? a.model).isSome
  · rw [if_pos there, if_pos there]
    cases value <;> exact write_eq fire _ _
  · rw [if_neg there, if_neg there]
    rfl

theorem bindComputed_eq_errand (model : Ref .model) (definitions : List (String × Definition σ)) :
    bindComputed fire model definitions = errand fire (Opening.bindComputed model definitions) := by
  rw [bindComputed, Opening.bindComputed, ← keeping_errand]
  simp only [errand_bind]
  refine congrArg (keeping _) (bind_congr fun _ => bind_congr fun _ => bind_congr fun _ => ?_)
  refine bind_congr fun w => ?_
  cases w.models.get? model with
  | none => rfl
  | some m => exact writeStore_eq fire _ _

theorem publish_eq (model : Ref .model) (hub : Ref .hub) (property : Property σ) (value : Json) :
    publish fire model hub property value = errand fire (Opening.publish model hub property value) := by
  simp only [publish, Opening.publish, errand_bind, ← within_errand]
  refine bind_congr fun _ => congrArg (within _) ?_
  cases property.isVirtual with
  | true => exact announce_eq fire _ _
  | false => exact writeStore_eq fire _ _

theorem refresh_eq (model : Ref .model) (name : String) :
    refresh fire model name = errand fire (Opening.refresh model name) := by
  rw [refresh, Opening.refresh, errand_bind]
  refine bind_congr fun w => ?_
  cases w.models.get? model with
  | none => rfl
  | some m =>
      cases found : m.property? name with
      | none => simp only [found]; rfl
      | some property =>
          simp only [found, ← keeping_errand, errand_bind]
          refine congrArg (keeping _) (bind_congr fun result => ?_)
          split
          · rfl
          · simp only [errand_bind, publish_eq]

theorem push_eq (binding : Ref .binding) (index : Nat) :
    push fire binding index = errand fire (Opening.push binding index) := by
  rw [push, Opening.push, errand_bind]
  refine bind_congr fun w => ?_
  cases w.bindings.get? binding with
  | none => rfl
  | some b =>
      cases slots : b.slots[index]? with
      | none => simp only [slots]; rfl
      | some slot =>
          cases there : (w.documents.get? b.document).bind (·.get? b.element) with
          | none => simp only [slots, there]; rfl
          | some element =>
              simp only [slots, there]
              cases slot.operator.read element.content with
              | none => rfl
              | some value =>
                  cases slot.compiled.leaf? with
                  | none => rfl
                  | some accessor => simp only [errand_bind, assign_eq]

theorem typeInto_eq (document : Ref .document) (element : Ref .element) (text : String) :
    typeInto fire document element text = errand fire (Opening.typeInto document element text) := by
  rw [typeInto, Opening.typeInto, errand_bind, ← keeping_errand]
  simp only [errand_pure, fireAll, bind_pure_unit]
  rfl

end Run

end LiveBinding
