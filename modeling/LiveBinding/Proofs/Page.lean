/-
# LiveBinding.Proofs.Page -- a bound page shows the current model

After a view was bound, a face of an element that one slot alone writes shows what the
operator of the slot makes of its expression, read over the model as it is now, after
whatever is written to the model and typed into the page (`page_shows_model`).  It does
so as long as nothing fails on the way and clients do not themselves change the face.

In the middle of a dispatch it may not.  Then the slot has a call to come on the stack
of dispatches, either by an attribute it hears of, or by the edit that put it behind.
-/
import Mathlib.Tactic.Choose
import LiveBinding.Proofs.Follower.Slot
import LiveBinding.Proofs.Run.Install

namespace LiveBinding

set_option autoImplicit false

variable {σ : Type}

namespace World

/-- A slot of a bound view shows its expression on a face that no other slot writes. -/
structure Displays (w : World σ) (view : Ref .view) (binding : Ref .binding) (b : Binding)
    (index : Nat) (slot : Slot) (expr : Expr) (face : Face) : Prop where
  listed : ∃ v, w.views.get? view = some v ∧ binding ∈ v.bindings
  present : w.bindings.get? binding = some b
  seated : b.slots[index]? = some slot
  declared : ∃ pair, b.declaration.pair? slot.name = some pair ∧ pair.expr = expr
  /-- Operators that take an object have it written out. -/
  literal : Operator.takesObject slot.name = true → ∃ entries, expr = .object entries
  uncontested : ¬ w.Contested binding index b.document b.element face

/-- The slot shows a plain attribute as the value of an element that is editable. -/
structure Typable (w : World σ) (v : View) (m : Model σ) (b : Binding) (slot : Slot)
    (expr : Expr) : Prop where
  editable : v.isEditable (Run.tagOf w b.document b.element) = true
  value : slot.name = "value"
  plain : ∃ word offset, expr = .name word offset ∧ m.isComputed word = false

/-- The face shows what the operator of the slot makes of the expression, read over the
model as it is now. -/
def ShowsModel (w : World σ) (model : Ref .model) (b : Binding) (slot : Slot) (expr : Expr)
    (face : Face) : Prop :=
  ∃ m element, w.models.get? model = some m ∧
    w.elementAt b.document b.element = some element ∧
    ∀ shows, (face, shows) ∈ Face.shown slot.name (expr.value b.env fun a => m.read a.name) →
      element.content.look face = shows

variable {before w : World σ} {v : View} {m : Model σ} {view : Ref .view} {binding : Ref .binding}
  {b : Binding} {index : Nat} {slot : Slot} {expr : Expr} {face : Face}

/-- The slot is one that was installed. -/
theorem Displays.installed (displays : w.Displays view binding b index slot expr face)
    (wires : Run.Wires view v before w) :
    b.document = v.document ∧ b.env = Run.environmentOf before v.model ∧
      w.Installed v binding b index slot := by
  obtain ⟨document, names, installed, -⟩ :=
    wires.slot displays.listed displays.present displays.seated
  exact ⟨document, names, installed⟩

/-- What is typed into the element is pushed. -/
theorem Typable.pushes (typable : w.Typable v m b slot expr)
    (displays : w.Displays view binding b index slot expr face)
    (installed : w.Installed v binding b index slot) (standard : v.operators = []) :
    ∃ id, ∀ element, w.elementAt b.document b.element = some element →
      ⟨id, .push binding index⟩ ∈ element.listeners := by
  obtain ⟨element, there, pushes⟩ := installed.page
  obtain ⟨word, offset, rfl, -⟩ := typable.plain
  obtain ⟨pair, found, written⟩ := displays.declared
  obtain ⟨pair', sight, c, found', compiles, holds, -⟩ := installed.hears
  cases found.symm.trans found'
  rw [written] at compiles
  obtain ⟨a, -, rfl⟩ := Expr.compile_name compiles
  have known := installed.standard standard
  rw [typable.value] at known
  have operator : slot.operator = .value := Option.some.inj (known.symm.trans rfl)
  have tag : Run.tagOf w b.document b.element = element.content.tag := by
    unfold elementAt at there
    rw [Run.tagOf, there]
  obtain ⟨id, listens⟩ := pushes standard (tag ▸ typable.editable) (by rw [operator]; rfl)
    (by rw [holds]; rfl)
  refine ⟨id, fun element' there' => ?_⟩
  rw [there] at there'
  cases there'
  exact listens

/-- The slot can be followed from where it was bound. -/
theorem Displays.exists_seat (displays : w.Displays view binding b index slot expr face)
    (wires : Run.Wires view v before w) (standard : v.operators = [])
    (wired : before.models.get? v.model = some m) (regular : m.IsRegular) :
    ∃ seat : Seat σ, (seat.Fits ∧ seat.Ready [] w ∧ seat.InStep w) ∧ seat.model = v.model ∧
      seat.row = b ∧ seat.slot = slot ∧ seat.expr = expr ∧ seat.face = face ∧ seat.pins = [] ∧
      (seat.listener.isSome = true ↔ w.Typable v m b slot expr) := by
  obtain ⟨document, env, installed⟩ := displays.installed wires
  have there : w.models.get? v.model = some m := wires.models ▸ wired
  have names : ∀ word a, Index.get? word b.env = some a → a = ⟨word, v.model⟩ := by
    intro word a found
    rw [env, Run.environmentOf, wired] at found
    exact Environment.get?_ofNames found
  obtain ⟨pair, found, written⟩ := displays.declared
  obtain ⟨pair', sight, c, found', compiles, holds, dirty, hears⟩ := installed.hears
  cases found.symm.trans found'
  rw [written] at compiles
  have own : ∀ a ∈ Expr.readings c, a.model = v.model := by
    intro a read
    obtain ⟨word, named⟩ := Expr.mem_of_readings compiles read
    rw [names word a named]
  -- one subscription for each attribute that was read
  have heard : ∀ a ∈ Expr.readings c, ∃ s : Subscription, s.hub = m.hub ∧
      s.event = changeOf a.name ∧ Registered w.hubs s (.reapply binding index) := by
    intro a read
    exact hears a read m (by rw [own a read]; exact there)
  choose subscription hub event registered using heard
  obtain ⟨listener, listens, needed⟩ : ∃ listener : Option Nat,
      (∀ id, listener = some id → ∀ element, w.elementAt b.document b.element = some element →
        ⟨id, .push binding index⟩ ∈ element.listeners) ∧
      (listener.isSome = true ↔ w.Typable v m b slot expr) := by
    by_cases typable : w.Typable v m b slot expr
    · obtain ⟨id, pushes⟩ := typable.pushes displays installed standard
      exact ⟨some id, by rintro _ ⟨⟩; exact pushes, by simp [typable]⟩
    · exact ⟨none, fun _ none => (by cases none), by simp [typable]⟩
  refine ⟨{
    start := w, model := v.model, shape := m, law := fun _ => True,
    binding := binding, index := index, row := b, slot := slot, expr := expr, face := face,
    subscriptions := (Expr.readings c).pmap subscription fun _ => id,
    listener := listener, pins := [] },
    ⟨?fits, ?ready, ?inStep⟩, rfl, rfl, rfl, rfl, rfl, rfl, needed⟩
  case fits =>
    exact {
      regular := regular
      lawful := fun _ => trivial
      present := displays.present
      seated := displays.seated
      declared := ⟨pair, found, written⟩
      known := installed.standard standard
      literal := displays.literal
      hears := ⟨sight, c, compiles, holds, dirty, fun a read => ⟨own a read,
        subscription a read, List.mem_pmap.mpr ⟨a, read, rfl⟩, hub a read, event a read⟩⟩
      uncontested := displays.uncontested
      pushes := fun some => by
        obtain ⟨-, value, word, offset, rfl, plain⟩ := needed.mp some
        obtain ⟨a, defined, -⟩ := Expr.compile_name compiles
        obtain rfl := names word a defined
        exact ⟨value, word, offset, _, rfl, defined, plain⟩ }
  case ready =>
    obtain ⟨bindings, row, -⟩ := wires.bindings
    obtain ⟨element, onPage, -⟩ := installed.page
    refine ⟨wires.sound, .refl w, fun _ none => absurd none List.not_mem_nil,
      Or.inr ⟨view, _, row, rfl⟩, Or.inr ⟨view, _, row, document.symm⟩,
      ⟨m, there, .refl m, trivial⟩,
      ⟨element, onPage, fun id some => listens id some element onPage⟩, fun s listed => ?_⟩
    obtain ⟨a, read, rfl⟩ := List.mem_pmap.mp listed
    exact registered a read
  case inStep =>
    intro m' element present onPage shows among
    cases there.symm.trans present
    refine installed.shows (installed.standard standard) pair found (written ▸ displays.literal) face shows ?_
      displays.uncontested element onPage
    have reads : ∀ a ∈ Expr.readings c, Accessor.value w.sight a = m.read a.name := by
      intro a read
      rw [Accessor.value, own a read, Run.sight_of_present present]
    rw [written, Expr.value_congr compiles reads]
    exact among

end World

/-- A view with the standard operators was bound to a regular model. -/
structure Bound (s t : State σ) (view : Ref .view) (v : View) (m : Model σ) : Prop where
  reachable : Reachable s
  present : s.world.views.get? view = some v
  standard : v.operators = []
  wired : s.world.models.get? v.model = some m
  regular : m.IsRegular
  ended : (Run.bindView view).result s = (.ok (), t)

/-- A face of the page shows the current model after every run, if clients leave the face
alone but for what is typed where it is pushed, and nothing fails on the way. -/
theorem page_shows_model {s t u : State σ} {view : Ref .view} {v : View} {m : Model σ}
    {binding : Ref .binding} {b : Binding} {index : Nat} {slot : Slot} {expr : Expr} {face : Face}
    {depth : Nat} {program : Program σ} (bound : Bound s t view v m)
    (displays : t.world.Displays view binding b index slot expr face)
    (callbacks : ∀ callback ∈ t.callbacks, ∀ event, (callback event).Only
      (Call.Spares b.document b.element face (t.world.Typable v m b slot expr)))
    (allowed : program.Only
      (Call.Spares b.document b.element face (t.world.Typable v m b slot expr)))
    (ended : (Run.run depth program).result t = (.ok (), u))
    (undisturbed : ¬ t.world.Failed u.world) :
    u.world.ShowsModel v.model b slot expr face := by
  have wires := Run.wires_bindView (sound_of_reachable bound.reachable) bound.present bound.ended
  obtain ⟨seat, ⟨fits, ready, inStep⟩, model, rfl, rfl, rfl, rfl, unpinned, needed⟩ :=
    displays.exists_seat wires bound.standard bound.wired bound.regular
  have permits : (Follower.ofSlot seat).permits =
      Call.Spares seat.row.document seat.row.element seat.face
        (t.world.Typable v m seat.row seat.slot seat.expr) := by
    rw [← propext needed]
    exact Follower.ofSeat_permits unpinned
  rw [← permits] at callbacks allowed
  have takes := Follower.takes_exec (Follower.ofSlot_lawful fits)
    (Follower.attentive_ofSlot fits depth) allowed _ _ ended (by simp)
  obtain ⟨readyThen, brings⟩ := takes.2.1 ⟨ready, callbacks⟩ fun ⟨_, _, never⟩ => never
  obtain ⟨m', there, -⟩ := readyThen.1.model
  obtain ⟨element, onPage, -⟩ := readyThen.1.element
  rw [← model]
  exact ⟨m', element, there, onPage, brings undisturbed inStep m' element there onPage⟩

/-! ## A run -/

namespace Sample

def form : View :=
  .ofDeclarations ⟨0⟩ Document.root ⟨0⟩ [("input", "value: name")]

def opening : Program Unit :=
  .call .openDocument fun (document : Ref .document) =>
    .call (.edit document (.create "input")) fun _ =>
      .call (.edit document (.appendChild Document.root ⟨1⟩)) fun _ =>
        .call (.openModel [("name", .text "Ada")]) fun _ => .call (.openView form) fun _ => .done

def opened : State Unit :=
  ((Run.run 0 opening).result ⟨.empty, [], ()⟩).2

def filled : State Unit :=
  ((Run.bindView ⟨0⟩).result opened).2

def visitor : Model Unit :=
  ⟨⟨0⟩, [("name", .text "Ada")], []⟩

def must : Except Error Unit → Program Unit
  | .ok _ => .done
  | .error error => .fail error

/-- Another name is typed, and a callback writes one more. -/
def typing : Program Unit :=
  .subscribe ⟨0⟩ (changeOf "name")
    (fun _ => .call (.write ⟨0⟩ [("name", .text "Eve")]) must) fun _ =>
      .call (.typeInto ⟨0⟩ ⟨1⟩ "Bob") must

/-- Another name is written, and a callback sets the value of the field. -/
def drafting : Program Unit :=
  .subscribe ⟨0⟩ (changeOf "name")
    (fun _ => .call (.edit ⟨0⟩ (.setValue ⟨1⟩ (.text "Eve"))) fun _ => .done) fun _ =>
      .call (.write ⟨0⟩ [("name", .text "Bob")]) must

/-- A callback writes a note and another name.  A listener to the note fails, and the
callback does not mind. -/
def careless : Program Unit :=
  .subscribe ⟨0⟩ (changeOf "note") (fun _ => .fail (.noSetter "note")) fun _ =>
    .subscribe ⟨0⟩ (changeOf "topic")
      (fun _ => .call (.write ⟨0⟩ [("note", .text "new"), ("name", .text "Bob")]) fun _ => .done)
      fun _ => .call (.write ⟨0⟩ [("topic", .text "names")]) must

theorem bound_form : Bound opened filled ⟨0⟩ form visitor where
  reachable := ⟨(), 0, opening, .ok (), nofun, rfl⟩
  present := rfl
  standard := rfl
  wired := rfl
  regular := ⟨by decide, nofun, nofun⟩
  ended := Run.result_of_isOk (by decide +kernel)

def word : Expr → Option String
  | .name word _ => some word
  | _ => none

theorem exists_of_word {expr : Expr} {name : String} (named : word expr = some name) :
    ∃ offset, expr = .name name offset := by
  cases expr with
  | name other offset =>
      cases named
      exact ⟨offset, rfl⟩
  | _ => cases named

/-- There is one slot, and it is on the first element and reads a name. -/
theorem exists_only_slot {w : World Unit} {operator name : String}
    (listed : (w.views.get? ⟨0⟩).map (·.bindings) = some [⟨0⟩])
    (alone : w.bindings.rows.length = 1)
    (row : (w.bindings.get? ⟨0⟩).map (fun b => ((b.document, b.element), b.slots.map (·.name),
      (b.declaration.pair? operator).map fun pair => word pair.expr, Index.get? name b.env)) =
        some ((⟨0⟩, ⟨1⟩), [operator], some (some name), some ⟨name, ⟨0⟩⟩)) :
    ∃ b slot offset, (∃ v, w.views.get? ⟨0⟩ = some v ∧ ⟨0⟩ ∈ v.bindings) ∧
      w.bindings.get? ⟨0⟩ = some b ∧ b.slots[0]? = some slot ∧ slot.name = operator ∧
      (∃ pair, b.declaration.pair? slot.name = some pair ∧ pair.expr = .name name offset) ∧
      (b.document, b.element) = (⟨0⟩, ⟨1⟩) ∧ Index.get? name b.env = some ⟨name, ⟨0⟩⟩ ∧
      ∀ face, ¬ w.Contested ⟨0⟩ 0 b.document b.element face := by
  obtain ⟨v, there, bindings⟩ := Option.map_eq_some_iff.mp listed
  obtain ⟨b, present, facts⟩ := Option.map_eq_some_iff.mp row
  simp only [Prod.mk.injEq] at facts
  obtain ⟨places, names, pairs, reads⟩ := facts
  obtain ⟨slot, slots, named⟩ := List.map_eq_singleton_iff.mp names
  obtain ⟨pair, found, written⟩ := Option.map_eq_some_iff.mp pairs
  obtain ⟨offset, written⟩ := exists_of_word written
  refine ⟨b, slot, offset, ⟨v, there, by rw [bindings]; exact List.mem_singleton.mpr rfl⟩, present,
    by rw [slots]; rfl, named, ⟨pair, named ▸ found, written⟩, Prod.ext_iff.mpr places, reads, ?_⟩
  rintro face ⟨⟨other⟩, at_, apart, b', slot', there', -, -, -, seated, -⟩
  have first : other < 1 := alone ▸ Table.lt_of_get? there'
  obtain rfl : other = 0 := by omega
  rw [present] at there'
  cases there'
  rw [slots] at seated
  obtain ⟨inside, -⟩ := List.getElem?_eq_some_iff.mp seated
  exact apart (congrArg (Prod.mk _) (Nat.lt_one_iff.mp inside))

/-- There is one slot, and it shows a name as the value of the first element. -/
theorem exists_only_field {w : World Unit} {name : String}
    (listed : (w.views.get? ⟨0⟩).map (·.bindings) = some [⟨0⟩])
    (alone : w.bindings.rows.length = 1)
    (row : (w.bindings.get? ⟨0⟩).map (fun b => ((b.document, b.element), b.slots.map (·.name),
      (b.declaration.pair? "value").map fun pair => word pair.expr, Index.get? name b.env)) =
        some ((⟨0⟩, ⟨1⟩), ["value"], some (some name), some ⟨name, ⟨0⟩⟩)) :
    ∃ b slot offset, w.Displays ⟨0⟩ ⟨0⟩ b 0 slot (.name name offset) .value ∧
      slot.name = "value" ∧ (b.document, b.element) = (⟨0⟩, ⟨1⟩) ∧
      Index.get? name b.env = some ⟨name, ⟨0⟩⟩ := by
  obtain ⟨b, slot, offset, among, present, seated, named, declared, places, reads, uncontested⟩ :=
    exists_only_slot listed alone row
  refine ⟨b, slot, offset, ⟨among, present, seated, declared, fun takes => ?_, uncontested _⟩, named,
    places, reads⟩
  rw [named] at takes
  cases takes

/-- The form has one slot, and it shows the name. -/
theorem exists_field : ∃ b slot offset,
    filled.world.Displays ⟨0⟩ ⟨0⟩ b 0 slot (.name "name" offset) .value ∧ slot.name = "value" ∧
      (b.document, b.element) = (⟨0⟩, ⟨1⟩) ∧
      Index.get? "name" b.env = some ⟨"name", ⟨0⟩⟩ :=
  exists_only_field (by decide +kernel) (by decide +kernel) (by decide +kernel)

end Sample

open Sample in
/-- What the callback wrote is shown, not what was typed. -/
theorem page_shows_model_form : ∃ b slot expr u,
    Bound opened filled ⟨0⟩ form visitor ∧
      filled.world.Displays ⟨0⟩ ⟨0⟩ b 0 slot expr .value ∧
      (Run.run 8 typing).result filled = (.ok (), u) ∧ ¬ filled.world.Failed u.world ∧
      u.world.ShowsModel ⟨0⟩ b slot expr .value := by
  obtain ⟨b, slot, offset, displays, named, places, -⟩ := exists_field
  obtain ⟨document, element⟩ := Prod.mk.inj places
  have ended : (Run.run 8 typing).result filled =
      (.ok (), ((Run.run 8 typing).result filled).2) := Run.result_of_isOk (by decide +kernel)
  have undisturbed : ¬ filled.world.Failed ((Run.run 8 typing).result filled).2.world := by
    decide +kernel
  have typable : filled.world.Typable form visitor b slot (.name "name" offset) :=
    ⟨by rw [document, element]; decide +kernel, named, "name", offset, rfl, rfl⟩
  have silent : filled.callbacks = [] := List.length_eq_zero_iff.mp (by decide +kernel)
  have spared : ∀ answer, (must answer).Only (Call.Spares b.document b.element .value
      (filled.world.Typable form visitor b slot (.name "name" offset))) := by
    rintro (error | done)
    · exact .fail error
    · exact .done
  have allowed : typing.Only (Call.Spares b.document b.element .value
      (filled.world.Typable form visitor b slot (.name "name" offset))) :=
    .subscribe (fun _ => .call trivial spared) fun _ => .call (fun _ _ _ => typable) spared
  have shows := page_shows_model bound_form displays (by rw [silent]; nofun) allowed ended
    undisturbed
  exact ⟨b, slot, _, _, bound_form, displays, ended, undisturbed, shows⟩

namespace Sample

/-- The field shows the name, or it does not show the model. -/
theorem value_of_showsModel {w : World Unit} {b : Binding} {slot : Slot} {offset : Nat}
    (named : slot.name = "value") (places : (b.document, b.element) = (⟨0⟩, ⟨1⟩))
    (reads : Index.get? "name" b.env = some ⟨"name", ⟨0⟩⟩)
    (shows : w.ShowsModel ⟨0⟩ b slot (.name "name" offset) .value) :
    (w.elementAt ⟨0⟩ ⟨1⟩).map (·.content.value) =
      (w.models.get? ⟨0⟩).map fun m => (m.read "name").displayText := by
  obtain ⟨m, element, present, there, looks⟩ := shows
  obtain ⟨document, element_⟩ := Prod.mk.inj places
  rw [document, element_] at there
  rw [present, there]
  have looked := looks (.text (m.read "name").displayText) (by
    rw [named]
    simp only [Expr.value, reads]
    exact List.mem_singleton.mpr rfl)
  exact congrArg some (Json.text.inj looked)

end Sample

open Sample in
/-- Not every callback leaves the page as the model has it: one that sets the value of the
field itself does not, nor does one that minds no failure of what it writes. -/
theorem not_shown_whatever_callbacks_do : Bound opened filled ⟨0⟩ form visitor ∧
    ∃ b slot expr, filled.world.Displays ⟨0⟩ ⟨0⟩ b 0 slot expr .value ∧
      ∀ program ∈ [drafting, careless], ∃ u, (Run.run 8 program).result filled = (.ok (), u) ∧
        ¬ u.world.ShowsModel ⟨0⟩ b slot expr .value := by
  obtain ⟨b, slot, offset, displays, named, places, reads⟩ := exists_field
  have stale : ∀ program, ((Run.run 8 program).result filled).1.isOk = true →
      (((Run.run 8 program).result filled).2.world.elementAt ⟨0⟩ ⟨1⟩).map (·.content.value) ≠
        (((Run.run 8 program).result filled).2.world.models.get? ⟨0⟩).map
          (fun m => (m.read "name").displayText) →
      ∃ u, (Run.run 8 program).result filled = (.ok (), u) ∧
        ¬ u.world.ShowsModel ⟨0⟩ b slot (.name "name" offset) .value :=
    fun program well differs => ⟨_, Run.result_of_isOk well, fun shows =>
      differs (value_of_showsModel named places reads shows)⟩
  refine ⟨bound_form, b, slot, _, displays, List.forall_mem_cons.mpr
    ⟨stale drafting ?_ ?_, List.forall_mem_singleton.mpr (stale careless ?_ ?_)⟩⟩
  all_goals decide +kernel

end LiveBinding
