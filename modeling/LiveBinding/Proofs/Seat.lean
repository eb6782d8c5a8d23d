/-
# LiveBinding.Proofs.Seat -- where a slot sits, and what leaves it there

A seat is what is known of a slot from the time it was bound, with one of the faces it
shows (`Seat`, `Seat.Fits`).  As long as the world is ready for it (`Seat.Ready`) the slot
hears of every attribute that was read for its expression.  Some changes leave it ready,
whatever its element shows then (`Seat.Stays`), and some leave also that alone
(`Seat.Still`).

Applied anew, a slot reads the value of its expression, whether it is compiled anew or
not (`Seat.Fits.value_of_current`).
-/
import LiveBinding.Proofs.Binding.Meaning
import LiveBinding.Proofs.Run.Slot

namespace LiveBinding

set_option autoImplicit false

variable {σ : Type}

namespace World

theorem mem_values {kind : Kind} {α : Type} {table : Table kind α} {ref : Ref kind} {row : α}
    (present : table.get? ref = some row) : row ∈ table.values := by
  have found : table.rows[ref.index]? = some (some row) := Option.join_eq_some_iff.mp present
  exact List.mem_filterMap.mpr ⟨some row, List.mem_of_getElem? found, rfl⟩

theorem exists_of_mem_values {kind : Kind} {α : Type} {table : Table kind α} {row : α}
    (listed : row ∈ table.values) : ∃ ref, table.get? ref = some row := by
  obtain ⟨found, on, same⟩ := List.mem_filterMap.mp listed
  obtain ⟨i, here⟩ := List.getElem?_of_mem on
  obtain rfl : found = some row := same
  exact ⟨⟨i⟩, by rw [Table.get?, here]; rfl⟩

variable {w : World σ}

/-- Some row passes the test just if there is one in the table that does. -/
theorem any_values_iff {kind : Kind} {α : Type} {table : Table kind α} {test : α → Bool} :
    table.values.any test = true ↔ ∃ ref row, table.get? ref = some row ∧ test row = true := by
  rw [List.any_eq_true]
  constructor
  · rintro ⟨row, listed, passes⟩
    obtain ⟨ref, present⟩ := exists_of_mem_values listed
    exact ⟨ref, row, present, passes⟩
  · rintro ⟨ref, row, present, passes⟩
    exact ⟨row, mem_values present, passes⟩

theorem keepsDocument_iff {document : Ref .document} : w.keepsDocument document = true ↔
    .document document ∈ w.held ∨ ∃ view v, w.views.get? view = some v ∧ v.document = document := by
  rw [keepsDocument, Bool.or_eq_true, decide_eq_true_iff, any_values_iff]
  simp only [decide_eq_true_iff]

theorem keepsModel_iff {model : Ref .model} : w.keepsModel model = true ↔
    .model model ∈ w.held ∨ ∃ view v, w.views.get? view = some v ∧ v.model = model := by
  rw [keepsModel, Bool.or_eq_true, decide_eq_true_iff, any_values_iff]
  simp only [decide_eq_true_iff]

end World

/-- A slot with one of the faces it shows. -/
structure Seat (σ : Type) where
  /-- The world in which it was bound. -/
  start : World σ
  model : Ref .model
  /-- The model as it was then. -/
  shape : Model σ
  /-- What holds of the model from then on. -/
  law : Model σ → Prop
  binding : Ref .binding
  index : Nat
  row : Binding
  slot : Slot
  expr : Expr
  face : Face
  /-- The subscriptions that apply the slot anew. -/
  subscriptions : List Subscription
  /-- The listener that pushes the value of the element, if that is needed. -/
  listener : Option Nat
  /-- What nobody may let go of meanwhile. -/
  pins : List Handle

namespace Seat

variable {seat : Seat σ} {v w : World σ} {held : List Handle}

def reaction (seat : Seat σ) : Reaction :=
  .reapply seat.binding seat.index

def shown (seat : Seat σ) (m : Model σ) : List (Face × Json) :=
  Face.shown seat.slot.name (seat.expr.value seat.row.env fun a => m.read a.name)

/-- The face looks as it should, for the model as it is. -/
def Holds (seat : Seat σ) (looks : Model σ → Json → Prop) (w : World σ) : Prop :=
  ∀ m element, w.models.get? seat.model = some m →
    w.elementAt seat.row.document seat.row.element = some element →
      looks m (element.content.look seat.face)

def InStep (seat : Seat σ) : World σ → Prop :=
  seat.Holds fun m look => ∀ shows, (seat.face, shows) ∈ seat.shown m → look = shows

/-- What holds of a seat from the time its slot was bound. -/
structure Sits (seat : Seat σ) : Prop where
  present : seat.start.bindings.get? seat.binding = some seat.row
  seated : seat.row.slots[seat.index]? = some seat.slot
  declared : ∃ pair, seat.row.declaration.pair? seat.slot.name = some pair ∧ pair.expr = seat.expr
  known : Index.get? seat.slot.name Catalog.standard = some seat.slot.operator
  /-- All that was read for the expression is of the model, and heard of. -/
  hears : ∃ sight c, seat.expr.compile seat.row.selector seat.row.env sight = .ok c ∧
    seat.slot.compiled = c.compiled ∧ seat.slot.dirty = c.compiled.isDirty ∧
    ∀ a ∈ Expr.readings c, a.model = seat.model ∧
      ∃ s ∈ seat.subscriptions, s.hub = seat.shape.hub ∧ s.event = changeOf a.name
  uncontested : ¬ seat.start.Contested seat.binding seat.index seat.row.document
    seat.row.element seat.face

/-- The seat is at a regular model, of which nothing else has to be known. -/
structure Fits (seat : Seat σ) : Prop extends seat.Sits where
  literal : Operator.takesObject seat.slot.name = true → ∃ entries, seat.expr = .object entries
  regular : seat.shape.IsRegular
  lawful : ∀ m, seat.law m
  /-- A value that is pushed goes to an attribute that is not computed. -/
  pushes : seat.listener.isSome = true → seat.slot.name = "value" ∧
    ∃ word offset a, seat.expr = .name word offset ∧ Index.get? word seat.row.env = some a ∧
      seat.shape.isComputed a.name = false

/-- The slot is where it has to be to hear of changes, whatever the work under way lets go of
that it holds on to. -/
structure Ready (seat : Seat σ) (held : List Handle) (w : World σ) : Prop where
  sound : w.Sound
  alike : seat.start.Alike w
  pinned : ∀ handle ∈ seat.pins, held.count handle < w.held.count handle
  /-- A view keeps the model, or it is pinned. -/
  keepsModel : .model seat.model ∈ seat.pins ∨
    ∃ view v, w.views.get? view = some v ∧ v.model = seat.model
  keepsDocument : .document seat.row.document ∈ seat.pins ∨
    ∃ view v, w.views.get? view = some v ∧ v.document = seat.row.document
  model : ∃ m, w.models.get? seat.model = some m ∧ seat.shape.SameShape m ∧ seat.law m
  element : ∃ element, w.elementAt seat.row.document seat.row.element = some element ∧
    ∀ id, seat.listener = some id →
      ⟨id, .push seat.binding seat.index⟩ ∈ element.listeners
  registered : ∀ s ∈ seat.subscriptions, Registered w.hubs s seat.reaction

/-- On the way from `v` to `w` the slot stays where it is, whatever its element shows. -/
structure Stays (seat : Seat σ) (v w : World σ) : Prop where
  sound : v.Sound → w.Sound
  alike : v.Alike w
  held : ∀ handle ∈ seat.pins, v.held.count handle ≤ w.held.count handle
  views : ∀ view row, v.views.get? view = some row → w.views.get? view = some row
  model : ∀ m, v.models.get? seat.model = some m →
    ∃ m', w.models.get? seat.model = some m' ∧ m.SameShape m' ∧ (seat.law m → seat.law m')
  element : ∀ element, v.elementAt seat.row.document seat.row.element = some element →
    ∃ element', w.elementAt seat.row.document seat.row.element = some element' ∧
      (seat.listener.isSome = true → ∀ l ∈ element.listeners, l ∈ element'.listeners)
  registered : ∀ s, Registered v.hubs s seat.reaction → Registered w.hubs s seat.reaction

theorem Stays.ready (stays : seat.Stays v w) (ready : seat.Ready held v) : seat.Ready held w where
  sound := stays.sound ready.sound
  alike := ready.alike.trans stays.alike
  pinned handle listed := Nat.lt_of_lt_of_le (ready.pinned handle listed) (stays.held handle listed)
  keepsModel := ready.keepsModel.imp_right fun ⟨view, row, there, same⟩ =>
    ⟨view, row, stays.views view row there, same⟩
  keepsDocument := ready.keepsDocument.imp_right fun ⟨view, row, there, same⟩ =>
    ⟨view, row, stays.views view row there, same⟩
  model := by
    obtain ⟨m, there, shape, lawful⟩ := ready.model
    obtain ⟨m', there', shape', keeps⟩ := stays.model m there
    exact ⟨m', there', shape.trans shape', keeps lawful⟩
  element := by
    obtain ⟨element, there, listens⟩ := ready.element
    obtain ⟨element', there', heard⟩ := stays.element element there
    exact ⟨element', there', fun id needed => heard (by rw [needed]; rfl) _ (listens id needed)⟩
  registered s listed := stays.registered s (ready.registered s listed)

/-- On the way from `v` to `w` nothing that concerns the seat is changed. -/
structure Still (seat : Seat σ) (v w : World σ) : Prop where
  sound : v.Sound → w.Sound
  alike : v.Alike w
  held : ∀ handle ∈ seat.pins, v.held.count handle ≤ w.held.count handle
  views : ∀ view row, v.views.get? view = some row → w.views.get? view = some row
  model : ∀ m, v.models.get? seat.model = some m → w.models.get? seat.model = some m
  element : ∀ element, v.elementAt seat.row.document seat.row.element = some element →
    ∃ element', w.elementAt seat.row.document seat.row.element = some element' ∧
      element.Spares seat.face (seat.listener.isSome = true) element'
  registered : ∀ s, Registered v.hubs s seat.reaction → Registered w.hubs s seat.reaction

theorem Still.stays (still : seat.Still v w) : seat.Stays v w where
  sound := still.sound
  alike := still.alike
  held := still.held
  views := still.views
  model m there := ⟨m, still.model m there, .refl m, id⟩
  element element there := by
    obtain ⟨element', there', spared⟩ := still.element element there
    exact ⟨element', there', spared.heard⟩
  registered := still.registered

theorem Still.holds {looks : Model σ → Json → Prop} (still : seat.Still v w)
    (ready : seat.Ready held v)    (holds : seat.Holds looks v) : seat.Holds looks w := by
  intro m element present there
  obtain ⟨m', present', -⟩ := ready.model
  obtain ⟨element', there', -⟩ := ready.element
  obtain ⟨element'', there'', spared⟩ := still.element element' there'
  rw [still.model m' present'] at present
  cases present
  rw [there''] at there
  cases there
  rw [spared.look]
  exact holds m element' present' there'

/-- Only other tables are touched, or the journal. -/
theorem Still.of_tables (hubs : w.hubs = v.hubs) (models : w.models = v.models)
    (documents : w.documents = v.documents) (bindings : w.bindings = v.bindings)
    (views : w.views = v.views)
    (held : ∀ handle ∈ seat.pins, v.held.count handle ≤ w.held.count handle) : seat.Still v w where
  sound := (World.Leaves.of_tables hubs models bindings).sound
  alike := World.alike_of_bindings bindings
  held := held
  views view row there := by rw [views, there]
  model m there := by rw [models, there]
  element element there :=
    ⟨element, (World.elementAt_of_documents documents _ _).trans there, .refl _ _ _⟩
  registered s registered := by rw [hubs]; exact registered

/-- A document is changed in what does not concern the seat. -/
theorem Still.of_document {other : Ref .document} {f : Document → Document}
    (spares : seat.row.document = other →
      Document.Spares seat.row.element seat.face (seat.listener.isSome = true) f) :
    seat.Still w (w.editDocument other f) where
  sound := (World.apart_editDocument other f w).sound
  alike := .refl w
  held _ _ := Nat.le_refl _
  views _ _ := id
  model _ := id
  element _ there := World.elementAt_editDocument spares there
  registered _ := id

/-- Hubs are changed so that the slot is still applied anew. -/
theorem Still.of_hubs (apart : v.Apart w)
    (registered : ∀ s, Registered v.hubs s seat.reaction → Registered w.hubs s seat.reaction)
    (models : w.models = v.models) (documents : w.documents = v.documents)
    (bindings : w.bindings = v.bindings) (views : w.views = v.views) (held : w.held = v.held) :
    seat.Still v w where
  sound := apart.sound
  alike := World.alike_of_bindings bindings
  held handle _ := Nat.le_of_eq (by rw [held])
  views view row there := by rw [views, there]
  model m there := by rw [models, there]
  element element there :=
    ⟨element, (World.elementAt_of_documents documents _ _).trans there, .refl _ _ _⟩
  registered := registered

theorem Still.trans {u : World σ} (first : seat.Still u v) (then_ : seat.Still v w) :
    seat.Still u w where
  sound := then_.sound ∘ first.sound
  alike := first.alike.trans then_.alike
  held handle listed := Nat.le_trans (first.held handle listed) (then_.held handle listed)
  views view row there := then_.views view row (first.views view row there)
  model m there := then_.model m (first.model m there)
  element element there := by
    obtain ⟨between, there', spared⟩ := first.element element there
    obtain ⟨after, there'', spared'⟩ := then_.element between there'
    exact ⟨after, there'', spared.trans spared'⟩
  registered s registered := then_.registered s (first.registered s registered)

theorem Ready.holds (ready : seat.Ready held w) {handle : Handle} (listed : handle ∈ seat.pins) :
    handle ∈ w.held :=
  List.count_pos_iff.mp (Nat.zero_lt_of_lt (ready.pinned handle listed))

theorem Ready.document_kept (ready : seat.Ready held w) :
    w.keepsDocument seat.row.document = true :=
  World.keepsDocument_iff.mpr (ready.keepsDocument.imp_left ready.holds)

theorem Ready.model_kept (ready : seat.Ready held w) : w.keepsModel seat.model = true :=
  World.keepsModel_iff.mpr (ready.keepsModel.imp_left ready.holds)

/-! ## What clients do -/

/-- Another model that goes takes only what it subscribed with it. -/
theorem Ready.still_retire (ready : seat.Ready held w) (model : Ref .model) :
    seat.Still w (w.retire model) := by
  by_cases kept : w.keepsModel model = true
  · rw [World.retire, if_pos kept]
    exact .of_tables rfl rfl rfl rfl rfl fun _ _ => Nat.le_refl _
  · rcases present : w.models.get? model with _ | m
    · rw [World.retire, if_neg kept, present]
      exact .of_tables rfl rfl rfl rfl rfl fun _ _ => Nat.le_refl _
    · have other : seat.model ≠ model := by
        intro same
        exact kept (same ▸ ready.model_kept)
      rw [World.retire_eq kept present]
      obtain ⟨models, bindings, documents, views, holds⟩ := World.cancelAll_tables
        (m.properties.flatMap (·.subscriptions)) { w with models := w.models.erase model }
      refine ⟨fun sound => ?_, World.alike_of_bindings bindings,
        fun handle _ => Nat.le_of_eq (congrArg _ holds.symm),
        fun view row there => ?_, fun m' there => ?_, fun element there => ?_,
        fun s registered => ?_⟩
      · rw [← World.retire_eq kept present]
        exact (World.apart_retire model w).sound sound
      · rw [views]
        exact there
      · rw [models]
        exact (Table.get?_erase_of_ne _ other).trans there
      · exact ⟨element, (World.elementAt_of_documents documents _ _).trans there, .refl _ _ _⟩
      · exact registered.cancelAll ready.sound.wired.numbered (ready.sound.wired.owned present)
          fun owned => by cases owned

/-- Work that ends may let go of what it held on to. -/
theorem Ready.freed {handle : Handle} (ready : seat.Ready (handle :: held) w) :
    seat.Ready held { w with held := w.held.erase handle } where
  sound := World.Leaves.sound (v := w) (.of_tables rfl rfl rfl) ready.sound
  alike := ready.alike
  pinned other listed := by
    have pinned := ready.pinned other listed
    rw [List.count_cons] at pinned
    rw [List.count_erase]
    omega
  keepsModel := ready.keepsModel
  keepsDocument := ready.keepsDocument
  model := ready.model
  element := ready.element
  registered := ready.registered

/-- From then on it may be let go of as often. -/
theorem Ready.hold (ready : seat.Ready held w) (handle : Handle) :
    seat.Ready (handle :: held) (w.hold handle) where
  sound := (World.apart_hold handle w).sound ready.sound
  alike := ready.alike
  pinned other listed := by
    have pinned := ready.pinned other listed
    rw [World.hold, List.count_cons, List.count_cons]
    omega
  keepsModel := ready.keepsModel
  keepsDocument := ready.keepsDocument
  model := ready.model
  element := ready.element
  registered := ready.registered

/-- What is let go of goes, if nobody else keeps it. -/
theorem Ready.still_released {handle : Handle}
    (ready : seat.Ready held { w with held := w.held.erase handle }) :
    seat.Still { w with held := w.held.erase handle } (w.release handle) := by
  cases handle with
  | model model => exact ready.still_retire model
  | _ => exact .of_tables rfl rfl rfl rfl rfl fun _ _ => Nat.le_refl _

/-- Letting go of something that is not pinned leaves the rest. -/
theorem Ready.still_release (ready : seat.Ready held w) {handle : Handle}
    (free : handle ∉ seat.pins) : seat.Still w (w.release handle) := by
  have freed : seat.Still w { w with held := w.held.erase handle } :=
    .of_tables rfl rfl rfl rfl rfl fun other listed => by
      have apart : other ≠ handle := fun same => free (same ▸ listed)
      exact Nat.le_of_eq (List.count_erase_of_ne apart).symm
  exact freed.trans (freed.stays.ready ready).still_released

theorem still_subscribe (hub : Ref .hub) (event : String) (callback : Nat) (w : World σ) :
    seat.Still w (w.subscribe hub event (.client callback)).2 := by
  refine .of_hubs (World.apart_subscribe hub event callback w)
    (fun s => (World.continues_subscribe hub event (.client callback) w).stands) ?_ ?_ ?_ ?_ ?_ <;>
  · unfold World.subscribe
    split <;> rfl

theorem still_listen (document : Ref .document) (element : Ref .element) (callback : Nat)
    (w : World σ) : seat.Still w (w.listen document element (.client callback)).2 := by
  unfold World.listen
  split
  · exact .of_document fun _ => Document.spares_addListener (.client callback)
  · exact .of_tables rfl rfl rfl rfl rfl fun _ _ => Nat.le_refl _

theorem still_withdraw (s : Subscription) (w : World σ) : seat.Still w (w.withdraw s) :=
  .of_hubs (World.apart_withdraw s w) (fun _ registered => registered.withdraw nofun) rfl rfl rfl rfl
    rfl

/-- New things leave the seat alone. -/
theorem still_openHub (w : World σ) : seat.Still w w.openHub.2 where
  sound := (World.apart_openHub w).sound
  alike := World.alike_of_bindings rfl
  held _ _ := List.count_le_count_cons
  views _ _ := id
  model _ := id
  element element there := ⟨element, there, .refl _ _ _⟩
  registered _ := (Continues.insert w.hubs).stands

theorem still_openModel (attributes : Attributes) (w : World σ) :
    seat.Still w (w.openModel attributes).2 where
  sound := (World.apart_openModel attributes w).sound
  alike := World.alike_of_bindings rfl
  held _ _ := List.count_le_count_cons
  views _ _ := id
  model _ there := Table.get?_insert_some.mpr (Or.inr there)
  element element there := ⟨element, there, .refl _ _ _⟩
  registered _ := (Continues.insert w.hubs).stands

theorem still_openDocument (w : World σ) : seat.Still w w.openDocument.2 where
  sound := (World.apart_openDocument w).sound
  alike := World.alike_of_bindings rfl
  held _ _ := List.count_le_count_cons
  views _ _ := id
  model _ := id
  element element there := by
    obtain ⟨d, present, found⟩ := Option.bind_eq_some_iff.mp there
    exact ⟨element, Option.bind_eq_some_iff.mpr
      ⟨d, Table.get?_insert_some.mpr (Or.inr present), found⟩, .refl _ _ _⟩
  registered _ := id

theorem still_openView (view : View) (w : World σ) : seat.Still w (w.openView view).2 where
  sound := (World.apart_openView view w).sound
  alike := World.alike_of_bindings rfl
  held _ _ := Nat.le_refl _
  views _ _ there := Table.get?_insert_some.mpr (Or.inr there)
  model _ := id
  element element there := ⟨element, there, .refl _ _ _⟩
  registered _ := id

/-- Another row of the same shape is put for some model. -/
theorem stays_put {model : Ref .model} {m m' : Model σ} (present : w.models.get? model = some m)
    (same : m.SameShape m') (sound : (w.put model m').Sound)
    (keeps : seat.model = model → seat.law m → seat.law m') : seat.Stays w (w.put model m') where
  sound _ := sound
  alike := .refl w
  held _ _ := Nat.le_refl _
  views _ _ := id
  model found there := by
    by_cases here : seat.model = model
    · subst here
      rw [present] at there
      cases there
      exact ⟨m', World.get?_put_self (by rw [present]; rfl), same, keeps rfl⟩
    · exact ⟨found, (World.get?_put_ne here).trans there, .refl found, id⟩
  element element there := ⟨element, there, fun _ _ => id⟩
  registered _ := id

/-- The content of some element is changed. -/
theorem stays_amend (document : Ref .document) (element : Ref .element) (f : Content → Content)
    (w : World σ) : seat.Stays w (w.editDocument document (.amend element f)) where
  sound := (World.apart_editDocument _ _ w).sound
  alike := .refl w
  held _ _ := Nat.le_refl _
  views _ _ := id
  model m there := ⟨m, there, .refl m, id⟩
  element found there := by
    refine ⟨_, World.elementAt_amend document element f there, fun _ l listed => ?_⟩
    split <;> exact listed
  registered _ := id

/-- Some slot is applied anew. -/
theorem stays_renew {binding : Ref .binding} {index : Nat} {b : Binding} {slot : Slot}
    (present : w.bindings.get? binding = some b) (seated : b.slots[index]? = some slot)
    (message : Message) (compiled : Compiled) :
    seat.Stays w (w.renew binding index b slot message compiled) := by
  obtain ⟨hubs, models, views, holds, documents⟩ :=
    World.renew_tables binding index b slot message compiled w
  have amended := seat.stays_amend b.document b.element
    (slot.operator.apply (compiled.value w.sight)) w
  refine ⟨(World.leaves_renew binding index b slot message compiled w).sound,
    World.alike_renew present seated message compiled, fun handle _ => Nat.le_of_eq (by rw [holds]),
    fun view row there => ?_, fun m there => ?_, fun element there => ?_, fun s registered => ?_⟩
  · rw [views, there]
  · rw [models]
    exact ⟨m, there, .refl m, id⟩
  · rw [World.elementAt_of_documents documents]
    exact amended.element element there
  · rw [hubs]
    exact registered

/-! ## What a slot reads -/

namespace Sits

/-- The value of the expression is the same where what was read for it reads the same. -/
theorem shown_congr (sits : seat.Sits) {m m' : Model σ}
    (agree : ∀ name, (∃ s ∈ seat.subscriptions, s.hub = seat.shape.hub ∧
      s.event = changeOf name) → m'.read name = m.read name) : seat.shown m' = seat.shown m := by
  obtain ⟨sight, c, compiled, -, -, hears⟩ := sits.hears
  rw [shown, shown, Expr.value_congr compiled fun a read => agree a.name (hears a read).2]

/-- A slot can be applied anew at any time. -/
theorem exists_current (sits : seat.Sits) (sight : Sight) :
    ∃ compiled, seat.slot.current seat.row sight = .ok compiled := by
  obtain ⟨before, c, compiles, -⟩ := sits.hears
  obtain ⟨pair, found, written⟩ := sits.declared
  obtain ⟨c', again⟩ := Expr.compile_again compiles sight
  unfold Slot.current
  split
  · simp only [Declaration.compileOperator, found, written]
    exact ⟨c'.compiled, congrArg (Except.map (·.compiled)) again⟩
  · exact ⟨seat.slot.compiled, rfl⟩

/-- Applied anew, a slot reads the value of its expression. -/
theorem meant_of_current (sits : seat.Sits) {b : Binding} {slot : Slot} {sight : Sight}
    {compiled : Compiled} (same : b.outline = seat.row.outline)
    (sameSlot : slot.outline = seat.slot.outline) (current : slot.current b sight = .ok compiled) :
    compiled.value sight = seat.expr.value seat.row.env (Accessor.value sight) := by
  rw [Slot.current_of_outline same sameSlot] at current
  obtain ⟨before, c, compiles, holds, dirty, -⟩ := sits.hears
  unfold Slot.current at current
  split at current
  · obtain ⟨pair, found, written⟩ := sits.declared
    simp only [Declaration.compileOperator, found, written] at current
    rcases again : seat.expr.compile seat.row.declaration.selector seat.row.env sight with e | c'
    · rw [again] at current
      cases current
    · rw [again] at current
      cases current
      exact Expr.value_of_compile again
  · rename_i clean
    cases current
    rw [holds]
    exact Expr.value_of_clean compiles (by rw [← dirty]; simpa using clean) sight

/-- That is its value over the model as it is. -/
theorem value_of_current (sits : seat.Sits) {b : Binding} {slot : Slot} {m : Model σ}
    {compiled : Compiled} (same : b.outline = seat.row.outline)
    (sameSlot : slot.outline = seat.slot.outline)
    (present : w.models.get? seat.model = some m) (current : slot.current b w.sight = .ok compiled) :
    compiled.value w.sight = seat.expr.value seat.row.env fun a => m.read a.name := by
  obtain ⟨_, c, compiles, -, -, hears⟩ := sits.hears
  rw [sits.meant_of_current same sameSlot current]
  refine Expr.value_congr compiles fun a read => ?_
  rw [Accessor.value, (hears a read).1, Run.sight_of_present present]

end Sits

/-- What was applied shows. -/
theorem Fits.look_applied (fits : seat.Fits) {m : Model σ} {shows : Json}
    (among : (seat.face, shows) ∈ seat.shown m) (c : Content) :
    (seat.slot.operator.apply (seat.expr.value seat.row.env fun a => m.read a.name) c).look
      seat.face = shows := by
  refine Operator.look_apply fits.known (fun takes => ?_) among c
  obtain ⟨entries, same⟩ := fits.literal takes
  rw [same, Expr.value]
  exact Index.nodup_keys_ofEntries _

/-- A slot whose element is pushed back reads one attribute, which it hears of, and shows
it as the value of the element. -/
theorem Fits.two_way (fits : seat.Fits) (needed : seat.listener.isSome = true) :
    ∃ name, seat.slot.dirty = false ∧ seat.slot.compiled = .leaf ⟨name, seat.model⟩ ∧
      seat.shape.isComputed name = false ∧
      (∀ c : Content, seat.slot.operator.read c = some (.text c.value)) ∧
      (∃ s ∈ seat.subscriptions, s.hub = seat.shape.hub ∧ s.event = changeOf name) ∧
      ∀ m : Model σ, seat.shown m = [(.value, .text (m.read name).displayText)] := by
  obtain ⟨named, word, offset, a, written, found, plain⟩ := fits.pushes needed
  obtain ⟨sight, c, compiles, holds, dirty, hears⟩ := fits.hears
  rw [written] at compiles
  obtain ⟨_, found', rfl⟩ := Expr.compile_name compiles
  cases found.symm.trans found'
  obtain ⟨own, heard⟩ := hears a List.mem_cons_self
  obtain ⟨name, model⟩ := a
  subst own
  have known := fits.known
  rw [named] at known
  have operator : seat.slot.operator = .value := Option.some.inj (known.symm.trans rfl)
  refine ⟨name, dirty, holds, plain, ?_, heard, fun m => ?_⟩
  · rw [operator]
    exact fun _ => rfl
  · rw [shown, named, written]
    simp only [Expr.value, found]
    rfl

end Seat

end LiveBinding
