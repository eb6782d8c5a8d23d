/-
# LiveBinding.Proofs.Follower.Field -- fields that are bound to a name

A field is an editable element that shows a name of a model as its value, by a slot of a
binding, while no other slot does (`World.Field`).  Binding a view leaves a field for each
editable element whose value is a name (`World.Displays.field`).

The model and the document are kept by views, or by clients that hold on to them.  What goes
on in a field can be followed from its seat (`World.Field.sits`, `World.Field.ready`).
-/
import LiveBinding.Proofs.Page

namespace LiveBinding

set_option autoImplicit false

variable {σ : Type}

/-- The expression of the operator is a name, and the name stands for the accessor. -/
def Binding.Names (b : Binding) (operator : String) (a : Accessor) : Prop :=
  ∃ pair word offset, b.declaration.pair? operator = some pair ∧ pair.expr = .name word offset ∧
    Index.get? word b.env = some a

namespace World

/-- The model and the document are kept, by views or by holding on to what is pinned. -/
structure Keeps (w : World σ) (pins : List Handle) (model : Ref .model) (document : Ref .document) :
    Prop where
  held : ∀ handle ∈ pins, handle ∈ w.held
  model : .model model ∈ pins ∨ ∃ view v, w.views.get? view = some v ∧ v.model = model
  document : .document document ∈ pins ∨ ∃ view v, w.views.get? view = some v ∧ v.document = document

/-- A slot shows what an accessor reads as the value of an element that is editable, and no
other slot does. -/
structure Field (w : World σ) (pins : List Handle) (binding : Ref .binding) (b : Binding)
    (index : Nat) (slot : Slot) (a : Accessor) (m : Model σ) : Prop where
  keeps : w.Keeps pins a.model b.document
  wired : w.models.get? a.model = some m
  present : w.bindings.get? binding = some b
  seated : b.slots[index]? = some slot
  value : slot.name = "value"
  known : Index.get? slot.name Catalog.standard = some slot.operator
  names : b.Names slot.name a
  leaf : slot.compiled = .leaf a
  clean : slot.dirty = false
  hears : ∃ s, s.hub = m.hub ∧ s.event = changeOf a.name ∧
    Registered w.hubs s (.reapply binding index)
  pushes : ∃ element id, w.elementAt b.document b.element = some element ∧
    ⟨id, .push binding index⟩ ∈ element.listeners
  uncontested : ¬ w.Contested binding index b.document b.element .value

/-! ## How fields come about -/

variable {before w : World σ} {pins : List Handle} {v : View} {m : Model σ} {view : Ref .view}
  {binding : Ref .binding} {b : Binding} {index offset : Nat} {slot : Slot} {a : Accessor}
  {word : String}

/-- A slot was installed on an editable element, and its value is a name. -/
theorem Installed.field (installed : w.Installed v binding b index slot)
    (standard : v.operators = []) (keeps : w.Keeps pins a.model b.document)
    (wired : w.models.get? a.model = some m)
    (present : w.bindings.get? binding = some b) (seated : b.slots[index]? = some slot)
    (value : slot.name = "value") (names : b.Names slot.name a)
    (editable : v.isEditable (Run.tagOf w b.document b.element) = true)
    (uncontested : ¬ w.Contested binding index b.document b.element .value) :
    w.Field pins binding b index slot a m := by
  obtain ⟨pair, word, offset, found, written, defined⟩ := names
  obtain ⟨pair', sight, c, found', compiles, holds, dirty, hears⟩ := installed.hears
  cases found.symm.trans found'
  rw [written] at compiles
  obtain ⟨a', defined', rfl⟩ := Expr.compile_name compiles
  cases defined.symm.trans defined'
  have known := installed.standard standard
  rw [value] at known
  have operator : slot.operator = .value := Option.some.inj (known.symm.trans rfl)
  obtain ⟨element, page, pushes⟩ := installed.page
  have tag : Run.tagOf w b.document b.element = element.content.tag := by
    unfold elementAt at page
    rw [Run.tagOf, page]
  obtain ⟨id, listens⟩ := pushes standard (tag ▸ editable) (by rw [operator]; rfl)
    (by rw [holds]; rfl)
  exact {
    keeps := keeps
    wired := wired
    present := present
    seated := seated
    value := value
    known := installed.standard standard
    names := ⟨pair, word, offset, found, written, defined⟩
    leaf := holds
    clean := dirty
    hears := hears a List.mem_cons_self m wired
    pushes := ⟨element, id, page, listens⟩
    uncontested := uncontested }

/-- A view that was bound has a field for each editable element whose value is a name, and
keeps it. -/
theorem Displays.field (displays : w.Displays view binding b index slot (.name word offset) .value)
    (wires : Run.Wires view v before w) (standard : v.operators = [])
    (wired : before.models.get? v.model = some m) (value : slot.name = "value")
    (editable : v.isEditable (Run.tagOf w b.document b.element) = true) :
    w.Field [] binding b index slot ⟨word, v.model⟩ m := by
  obtain ⟨bindings, row, -⟩ := wires.bindings
  obtain ⟨document, env, installed⟩ := displays.installed wires
  obtain ⟨pair, found, written⟩ := displays.declared
  obtain ⟨pair', sight, c, found', compiles, -⟩ := installed.hears
  cases found.symm.trans found'
  rw [written] at compiles
  obtain ⟨a, defined, -⟩ := Expr.compile_name compiles
  have named : a = ⟨word, v.model⟩ := by
    have listed := defined
    rw [env, Run.environmentOf, wired] at listed
    exact Environment.get?_ofNames listed
  have keeps : w.Keeps [] v.model b.document :=
    ⟨fun _ none => absurd none List.not_mem_nil, Or.inr ⟨view, _, row, rfl⟩,
      Or.inr ⟨view, _, row, document.symm⟩⟩
  exact installed.field standard keeps
    ((congrArg (·.get? v.model) wires.models).trans wired) displays.present displays.seated value
    ⟨pair, word, offset, found, written, named ▸ defined⟩ editable displays.uncontested

end World

/-! ## Seats of fields -/

namespace World

variable {w : World σ} {pins : List Handle} {m : Model σ} {binding : Ref .binding} {b : Binding}
  {index : Nat} {slot : Slot} {a : Accessor}

/-- The seat of a field. -/
def fieldSeat (w : World σ) (pins : List Handle) (binding : Ref .binding) (b : Binding) (index : Nat)
    (slot : Slot) (a : Accessor) (m : Model σ) (law : Model σ → Prop) (expr : Expr)
    (heard : Subscription) (listener : Option Nat) : Seat σ where
  start := w
  model := a.model
  shape := m
  law := law
  binding := binding
  index := index
  row := b
  slot := slot
  expr := expr
  face := .value
  subscriptions := [heard]
  listener := listener
  pins := pins

namespace Field

variable {law : Model σ → Prop} {heard : Subscription} {listener : Option Nat}

theorem sits (field : w.Field pins binding b index slot a m) {pair : Pair} {word : String}
    {offset : Nat} (found : b.declaration.pair? slot.name = some pair)
    (written : pair.expr = .name word offset) (defined : Index.get? word b.env = some a)
    (hub : heard.hub = m.hub) (event : heard.event = changeOf a.name) (law : Model σ → Prop)
    (listener : Option Nat) :
    (w.fieldSeat pins binding b index slot a m law (.name word offset) heard listener).Sits where
  present := field.present
  seated := field.seated
  declared := ⟨pair, found, written⟩
  known := field.known
  hears := by
    have compiles : (Expr.name word offset).compile b.selector b.env w.sight = .ok ⟨.leaf a, []⟩ := by
      rw [Expr.compile, defined]
    refine ⟨w.sight, _, compiles, field.leaf, field.clean, fun other read => ?_⟩
    rw [List.mem_singleton.mp read]
    exact ⟨rfl, heard, List.mem_singleton.mpr rfl, hub, event⟩
  uncontested := field.uncontested

theorem ready (field : w.Field pins binding b index slot a m) (sound : w.Sound)
    (lawful : law m) (registered : Registered w.hubs heard (.reapply binding index))
    (listens : ∀ id, listener = some id → ∀ element,
      w.elementAt b.document b.element = some element →
        ⟨id, .push binding index⟩ ∈ element.listeners) (expr : Expr) :
    (w.fieldSeat pins binding b index slot a m law expr heard listener).Ready [] w where
  sound := sound
  alike := .refl w
  pinned handle listed := List.count_pos_iff.mpr (field.keeps.held handle listed)
  keepsModel := field.keeps.model
  keepsDocument := field.keeps.document
  model := ⟨m, field.wired, .refl m, lawful⟩
  element := by
    obtain ⟨element, _, page, -⟩ := field.pushes
    exact ⟨element, page, fun id needed => listens id needed element page⟩
  registered s listed := by
    rw [List.mem_singleton.mp listed]
    exact registered

end Field

end World

end LiveBinding
