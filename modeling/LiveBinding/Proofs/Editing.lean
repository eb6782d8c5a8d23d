/-
# LiveBinding.Proofs.Editing -- an accepted edit leaves the field showing the model

What is typed into a field that is bound to a name is written to that name, through the
setter if it is computed, and what comes of it may be something else.  If that ends well the
field shows the model: it was applied anew when the change of the name was announced
(`edit_shows_model`).

Nothing is announced of a name that does not change.  So if the name reads as it did before,
the field keeps what was typed, which need not be what the model shows: a setter that trims
what it is given may leave blanks in the field (`not_all_edits_show_model`).
-/
import Mathlib
import LiveBinding.Proofs.Follower.Field
import LiveBinding.Proofs.Follower.Reading

namespace LiveBinding

set_option autoImplicit false

variable {σ : Type}

/-! ## What a field shows -/

/-- A field shows the value, or the value is what it was before and the field keeps a text. -/
def Seat.Accepts (before : Json) (text : String) (value look : Json) : Prop :=
  look = .text value.displayText ∨ value = before ∧ look = .text text

/-- A field can be followed from where it is. -/
theorem World.Field.exists_seat {w : World σ} {pins : List Handle} {binding : Ref .binding}
    {b : Binding} {index : Nat} {slot : Slot} {a : Accessor} {m : Model σ}
    (field : w.Field pins binding b index slot a m) (sound : w.Sound) (lawful : m.IsLawful)
    (distinct : (m.properties.map (·.name)).Nodup) (aside : m.MapsAside) (before : Json)
    (text : String) :
    ∃ seat : Seat σ, seat.Sits ∧ seat.Ready [] w ∧
      seat.Shows (seat.Reads a.name (Seat.Accepts before text)) ∧ seat.model = a.model ∧
      seat.row = b ∧ seat.face = .value ∧ seat.listener = none ∧ seat.pins = pins := by
  obtain ⟨pair, word, offset, found, written, defined⟩ := field.names
  obtain ⟨heard, hub, event, registered⟩ := field.hears
  have unneeded : ∀ id, none = some id → ∀ element,
      w.elementAt b.document b.element = some element →
        ⟨id, .push binding index⟩ ∈ element.listeners := fun id needed => by cases needed
  refine ⟨w.fieldSeat pins binding b index slot a m Model.IsLawful (.name word offset) heard none,
    field.sits found written defined hub event _ _, field.ready sound lawful registered unneeded _,
    ?_, rfl, rfl, rfl, rfl, rfl⟩
  refine Seat.shows_reads (fun _ => Iff.rfl) (fun _ => ⟨distinct, aside⟩)
    ⟨heard, List.mem_singleton.mpr rfl, hub, event⟩ fun m c => Or.inl ?_
  have known := field.known
  rw [field.value] at known
  have operator : slot.operator = .value := Option.some.inj (known.symm.trans rfl)
  simp only [World.fieldSeat, operator, Expr.value, defined]
  rfl

/-- Wherever in a run a text is typed into a field that is bound to a name: after that, if
everything went well, the field shows what the name reads as; or the name reads as it did
before, and the field keeps the text.  Callbacks may do anything but change the field
themselves, bind and release, or let go of what only clients keep. -/
theorem edit_shows_model {u t : State σ} {pins : List Handle} {binding : Ref .binding}
    {b : Binding} {index : Nat} {slot : Slot} {a : Accessor} {m : Model σ} {text : String}
    {depth : Nat} (attained : Attained u)
    (field : u.world.Field pins binding b index slot a m)
    (distinct : (m.properties.map (·.name)).Nodup) (aside : m.MapsAside)
    (callbacks : ∀ callback ∈ u.callbacks, ∀ event, (callback event).Only fun call =>
      call.Spares b.document b.element .value False ∧ call.Retains pins)
    (ended : (Run.typeInto (Run.dispatch depth) b.document b.element text).result u = (.ok (), t))
    (undisturbed : ¬ u.world.Failed t.world) :
    ∃ m' element, t.world.models.get? a.model = some m' ∧
      t.world.elementAt b.document b.element = some element ∧
      ∃ shown, m'.ReadsAs a.name shown ∧ (element.content.value = shown.displayText ∨
        shown = m.read a.name ∧ element.content.value = text) := by
  have lawful := lawful_of_attained attained a.model m field.wired
  obtain ⟨seat, sits, ready, shows, model, rfl, face, none, rfl⟩ :=
    field.exists_seat (sound_of_attained attained) lawful distinct aside (m.read a.name) text
  have permits : (Follower.ofSeat seat
      (seat.Reads a.name (Seat.Accepts (m.read a.name) text))).permits =
      fun call => call.Spares seat.row.document seat.row.element .value False ∧
        call.Retains seat.pins := by
    rw [← face]
    have never : (seat.listener.isSome = true) = False := by simp [none]
    rw [← never]
    rfl
  rw [← permits] at callbacks
  have pushes : Follower.Pushes seat (seat.Reads a.name (Seat.Accepts (m.read a.name) text)) :=
    fun _ _ _ needed => by
      rw [none] at needed
      cases needed
  rw [Run.typeInto, Run.result_alter_bind] at ended
  have typed : seat.Ready [] (u.world.editDocument seat.row.document
      (.amend seat.row.element (.setValue (.text text)))) :=
    (seat.stays_amend seat.row.document seat.row.element _ u.world).ready ready
  have accepts : seat.Holds (seat.Reads a.name (Seat.Accepts (m.read a.name) text))
      (u.world.editDocument seat.row.document (.amend seat.row.element (.setValue (.text text)))) := by
    intro m' element' present there
    obtain ⟨element, page, -⟩ := ready.element
    rw [World.elementAt_amend _ _ _ page, if_pos ⟨rfl, rfl⟩] at there
    cases there
    rw [model] at present
    cases field.wired.symm.trans present
    exact ⟨m.read a.name, Or.inl rfl, fun _ => rfl, Or.inr ⟨rfl, by rw [face]; rfl⟩⟩
  have takes := Follower.takes_keeping (Follower.ofSeat_robust shows)
    ((Follower.attentive_ofSeat sits shows pushes depth).keeps
      (.edit seat.row.document seat.row.element)) _ _ ended (by simp)
  obtain ⟨readyThen, brings⟩ := takes.2.1 ⟨typed, callbacks⟩ fun own =>
    own.elim fun _ held => held.2
  obtain ⟨m', there, -⟩ := readyThen.1.model
  obtain ⟨element, page, -⟩ := readyThen.1.element
  obtain ⟨shown, reads, -, looks⟩ := brings undisturbed accepts m' element there page
  rw [face] at looks
  exact ⟨m', element, model ▸ there, page, shown, reads,
    looks.imp Json.text.inj (And.imp_right Json.text.inj)⟩

/-! ## A run -/

namespace Sample

/-- Two texts stand for an object, each with the members in another order. -/
def twist : Json → Json
  | .text "ab" => .object [("a", .null), ("b", .null)]
  | .text "ba" => .object [("b", .null), ("a", .null)]
  | other => other

def signature : Getter Unit :=
  .read none true "name" fun name => .done (twist name)

def firstWord : Setter Unit := fun value client =>
  (.ok [("name", .text (String.ofList (value.displayText.toList.takeWhile (· ≠ ' ')))),
    ("raw", value)], client)

/-- Who signs, if it is not Bob. -/
def refuse (told : Event) : Program Unit :=
  match told.value with
  | .text "Bob" => .fail (.noSetter "Bob")
  | _ => .done

def guestbook : View :=
  .ofDeclarations ⟨0⟩ Document.root ⟨0⟩ [("input", "value: signed")]

/-- A document with a field, a model with a signature and the view, and what comes then. -/
def laying (next : Program Unit) : Program Unit :=
  .call .openDocument fun (document : Ref .document) =>
    .call (.edit document (.create "input")) fun _ =>
    .call (.edit document (.appendChild Document.root ⟨1⟩)) fun _ =>
    .call (.openModel [("name", .text "Ada")]) fun (model : Ref .model) =>
    .call (.bindComputed model [("signed", ⟨some signature, some firstWord, false, []⟩)]) fun _ =>
    .subscribe ⟨0⟩ (changeOf "signed") refuse fun _ =>
    .call (.openView guestbook) fun _ => next

def laid : State Unit :=
  ((Run.run 4 (laying .done)).result ⟨.empty, [], ()⟩).2

def inviting : State Unit :=
  ((Run.bindView ⟨0⟩).result laid).2

def host : Model Unit :=
  ⟨⟨0⟩, [("name", .text "Ada"), ("signed", .text "Ada")],
    [⟨"signed", signature, some firstWord, false, .text "Ada", [⟨⟨0⟩, "change:name"⟩],
      [⟨⟨0⟩, 0, "change:name"⟩]⟩]⟩

theorem laid_host : laid.world.models.get? ⟨0⟩ = some host := by cbv

theorem laid_guestbook : laid.world.views.get? ⟨0⟩ = some guestbook := by cbv

theorem laid_callbacks : laid.callbacks = [refuse] := by cbv

theorem bound_guestbook : (Run.bindView ⟨0⟩).result laid = (.ok (), inviting) := by
  rw [inviting]
  exact Run.result_of_isOk (by decide +kernel)

theorem inviting_callbacks : inviting.callbacks = [refuse] := by
  obtain ⟨-, ⟨-, callbacks⟩, -⟩ := Run.apart_bindView ⟨0⟩ _ _ bound_guestbook nofun
  exact callbacks.trans laid_callbacks

theorem result_laying (next : Program Unit) :
    (Run.run 4 (laying next)).result ⟨.empty, [], ()⟩ = (Run.exec (Run.dispatch 4) next).result laid :=
  rfl

theorem laid_reachable : Reachable laid :=
  ⟨(), 4, laying .done, .ok (), nofun, Run.result_of_isOk (by decide +kernel)⟩

theorem inviting_reachable : Reachable inviting := by
  refine ⟨(), 4, laying (.call (.bindView ⟨0⟩) fun _ => .done), .ok (), nofun, ?_⟩
  have bound := Run.result_attempt (Run.bindView ⟨0⟩) laid
  rw [bound_guestbook] at bound
  rw [result_laying, Run.exec]
  exact Run.result_bind_ok bound

theorem host_mapsAside : host.MapsAside := by
  intro p listed setter given value client mapped client' maps
  obtain rfl := List.mem_singleton.mp listed
  cases given
  cases maps
  intro name listed
  rcases List.mem_pair.mp listed with rfl | rfl <;> rfl

/-- The guestbook has one field, and it shows the signature. -/
theorem exists_signed : ∃ b slot,
    inviting.world.Field [] ⟨0⟩ b 0 slot ⟨"signed", ⟨0⟩⟩ host ∧
      (b.document, b.element) = (⟨0⟩, ⟨1⟩) := by
  obtain ⟨b, slot, offset, displays, value, places, -⟩ : ∃ b slot offset,
      inviting.world.Displays ⟨0⟩ ⟨0⟩ b 0 slot (.name "signed" offset) .value ∧
        slot.name = "value" ∧ (b.document, b.element) = (⟨0⟩, ⟨1⟩) ∧
        Index.get? "signed" b.env = some ⟨"signed", ⟨0⟩⟩ :=
    exists_only_field (by decide +kernel) (by decide +kernel) (by decide +kernel)
  have wires := Run.wires_bindView (sound_of_reachable laid_reachable) laid_guestbook
    bound_guestbook
  obtain ⟨document, element⟩ := Prod.mk.inj places
  have field := displays.field wires rfl laid_host value (by rw [document, element]; decide +kernel)
  exact ⟨b, slot, field, places⟩

def sign (text : String) : Program Unit :=
  .call (.typeInto ⟨0⟩ ⟨1⟩ text) must

def signed (w : World Unit) : Option String :=
  (w.elementAt ⟨0⟩ ⟨1⟩).map (·.content.value)

def expected (w : World Unit) : Option String :=
  (w.models.get? ⟨0⟩).map fun m => (m.read "signed").displayText

def smith : State Unit :=
  ((Run.typeInto (Run.dispatch 8) ⟨0⟩ ⟨1⟩ "Eve Smith").result inviting).2

/-- A callback writes into the field itself. -/
def scribbling : Program Unit :=
  .subscribe ⟨0⟩ (changeOf "signed")
    (fun _ => .call (.edit ⟨0⟩ (.setValue ⟨1⟩ (.text "Zoe"))) fun _ => .done) fun _ => sign "Eve"

/-- A callback signs for Bob, and does not mind that he is refused. -/
def forging : Program Unit :=
  .subscribe ⟨0⟩ (changeOf "raw")
    (fun _ => .call (.write ⟨0⟩ [("name", .text "Bob")]) fun _ => .done) fun _ => sign "Ada too"

/-- A callback puts the members of an object in another order. -/
def turning : Program Unit :=
  .subscribe ⟨0⟩ (changeOf "signed")
    (fun _ => .call (.write ⟨0⟩ [("name", .text "ba")]) must) fun _ => sign "ab"

/-- A callback releases the view, and signs for Zoe. -/
def leaving : Program Unit :=
  .subscribe ⟨0⟩ (changeOf "signed")
    (fun _ => .call (.unbindView ⟨0⟩) fun _ => .call (.write ⟨0⟩ [("name", .text "Zoe")]) must)
    fun _ => sign "Eve"

def alwaysZoe (isVirtual : Bool) : Definition Unit :=
  ⟨some (.done (.text "Zoe")), some firstWord, isVirtual, []⟩

/-- A callback defines the signature anew. -/
def recasting : Program Unit :=
  .subscribe ⟨0⟩ (changeOf "signed")
    (fun _ => .call (.bindComputed ⟨0⟩ [("signed", alwaysZoe true)]) must) fun _ => sign "Eve"

/-- The signature is defined twice. -/
def doubling : Program Unit :=
  .call (.bindComputed ⟨0⟩
    [("signed", ⟨some signature, some firstWord, false, []⟩), ("signed", alwaysZoe false)])
    fun _ => sign "Zoe Smith"

/-- What is typed here is accepted, and not what the field should show. -/
def unshown : List (Program Unit) :=
  [sign "Ada ", scribbling, forging, turning, leaving, recasting, doubling]

end Sample

open Sample in
/-- Of what was typed the field shows the first word, as the model does. -/
theorem edit_shows_model_signed : ∃ b slot,
    inviting.world.Field [] ⟨0⟩ b 0 slot ⟨"signed", ⟨0⟩⟩ host ∧
      signed smith.world = some "Eve" ∧ expected smith.world = some "Eve" ∧
      ∃ m' element, smith.world.models.get? ⟨0⟩ = some m' ∧
        smith.world.elementAt b.document b.element = some element ∧
        ∃ shown, m'.ReadsAs "signed" shown ∧ (element.content.value = shown.displayText ∨
          shown = host.read "signed" ∧ element.content.value = "Eve Smith") := by
  obtain ⟨b, slot, field, places⟩ := exists_signed
  obtain ⟨document, element⟩ := Prod.mk.inj places
  have ended : (Run.typeInto (Run.dispatch 8) b.document b.element "Eve Smith").result inviting =
      (.ok (), smith) := by
    rw [document, element, smith]
    exact Run.result_of_isOk (by decide +kernel)
  have undisturbed : ¬ inviting.world.Failed smith.world := by decide +kernel
  have spares : ∀ callback ∈ inviting.callbacks, ∀ event, (callback event).Only fun call =>
      call.Spares b.document b.element .value False ∧ call.Retains [] := by
    rw [inviting_callbacks]
    intro callback listed event
    rw [List.mem_singleton.mp listed, refuse]
    split
    · exact .fail _
    · exact .done
  have shows := edit_shows_model (attained_of_reachable inviting_reachable) field (by decide)
    host_mapsAside spares ended undisturbed
  exact ⟨b, slot, field, by decide +kernel, by decide +kernel, shows⟩

open Sample in
/-- Not every accepted edit leaves the field as the model has it: one whose first word is what
the model has already does not.  Nor does one while a callback changes the field itself, minds no
failure of what it writes, or replaces an object by an equal one that shows otherwise. -/
theorem not_all_edits_show_model : ∃ b slot,
    inviting.world.Field [] ⟨0⟩ b 0 slot ⟨"signed", ⟨0⟩⟩ host ∧
      (b.document, b.element) = (⟨0⟩, ⟨1⟩) ∧ ((host.property? "signed").bind (·.setter)).isSome ∧
      ∀ program ∈ unshown, ∃ t,
        (Run.run 8 program).result inviting = (.ok (), t) ∧ signed t.world ≠ expected t.world := by
  obtain ⟨b, slot, field, places⟩ := exists_signed
  have well : ∀ program ∈ unshown,
      ((Run.run 8 program).result inviting).1.isOk = true := by decide +kernel
  have differs : ∀ program ∈ unshown,
      signed ((Run.run 8 program).result inviting).2.world ≠
        expected ((Run.run 8 program).result inviting).2.world := by decide +kernel
  exact ⟨b, slot, field, places, rfl, fun program listed =>
    ⟨_, Run.result_of_isOk (well program listed), differs program listed⟩⟩

end LiveBinding
