/-
# LiveBinding.Proofs.Follower.Seat -- slots follow the models they read

A slot shows something of its model on a face of its element.  What it shows is brought about
by applying the slot anew, and stays as it should look unless the slot hears of a change
(`Seat.Shows`): that makes it a follower, and dispatches are attentive to it.

Clients may do what leaves the seat of the slot alone (`Call.Spares`).
-/
import LiveBinding.Proofs.Follower.Sound
import LiveBinding.Proofs.Seat

namespace LiveBinding

set_option autoImplicit false

variable {σ α : Type}

def Call.Retains (pins : List Handle) : Call σ → Prop
  | .release handle => handle ∉ pins
  | _ => True

/-- The call leaves the face of the element as it is, takes no listener off it where
they are needed, and binds and releases nothing. -/
def Call.Spares (document : Ref .document) (element : Ref .element) (face : Face)
    (listened : Prop) : Call σ → Prop
  | .edit other change =>
      other = document → Document.Spares element face listened fun d => d.apply change
  | .mount other parent fixtures =>
      other = document → Document.Spares element face listened (Fixture.mountAll parent fixtures)
  | .operate other at_ operator value =>
      other = document → Document.Spares element face listened (.amend at_ (operator.apply value))
  | .typeInto other at_ _ => other = document → at_ = element → face = .value → listened
  | .bindComputed .. => False
  | .unbindComputed _ => False
  | .attach .. => False
  | .dispose _ => False
  | .bindView _ => False
  | .unbindView _ => False
  | .removeView _ => False
  | .dropView _ => False
  | _ => True

namespace Seat

def HearsOneOf (seat : Seat σ) (hub : Ref .hub) (changes : List (String × Json)) : Prop :=
  ∃ change ∈ changes, ∃ s ∈ seat.subscriptions, s.hub = hub ∧ s.event = changeOf change.1

/-- The face looks so whenever the slot was applied anew, and as long as nothing is announced
that it hears; and what is known of the model lasts. -/
structure Shows (seat : Seat σ) (looks : Model σ → Json → Prop) : Prop where
  written : ∀ {m pending}, (m.MapsAside → ∀ name ∈ Fields.keys pending, m.isComputed name = false) →
    seat.law m → seat.law { m with store := (m.store.apply pending).1 }
  kept : ∀ {m p} value, m.property? p.name = some p → seat.law m → seat.law (m.adopt p value).1
  applied : ∀ {m} (c : Content), looks m
    ((seat.slot.operator.apply (seat.expr.value seat.row.env fun a => m.read a.name) c).look seat.face)
  stored : ∀ {m pending look}, seat.shape.SameShape m →
    (m.MapsAside → ∀ name ∈ Fields.keys pending, m.isComputed name = false) →
    ¬ seat.HearsOneOf m.hub (m.store.apply pending).2 → looks m look →
    looks { m with store := (m.store.apply pending).1 } look
  adopted : ∀ {m p value look}, seat.shape.SameShape m → seat.law m →
    (m.IsRegular → m.StoresComputed) → m.property? p.name = some p →
    (m.IsRegular → value.isScalar = true) → Run.isSettled p.value value = false →
    ¬ seat.HearsOneOf m.hub (m.adopt p value).2 → looks m look → looks (m.adopt p value).1 look

variable {seat : Seat σ} {s t : State σ} {fire : Fire σ} {w : World σ}

/-- A call that spares the face of the seat, and dispatches nothing, leaves the seat alone.
Letting go of something is another matter. -/
theorem still_perform {call : Call σ} {ended : Except Halt call.Answer}
    (spares : call.Spares seat.row.document seat.row.element seat.face (seat.listener.isSome = true))
    (silent : call.dispatches = false) (keeps : ∀ handle, call ≠ .release handle)
    (performed : (Run.perform fire call).result s = (ended, t)) : seat.Still s.world t.world := by
  cases call with
  | openHub => cases performed; exact seat.still_openHub _
  | openModel attributes => cases performed; exact seat.still_openModel attributes _
  | openDocument => cases performed; exact seat.still_openDocument _
  | openView view => cases performed; exact seat.still_openView view _
  | hold handle =>
      cases performed
      exact .of_tables rfl rfl rfl rfl rfl fun _ _ => List.count_le_count_cons
  | release handle => exact absurd rfl (keeps handle)
  | cancel subscription => cases performed; exact seat.still_withdraw subscription _
  | edit document edit => cases performed; exact .of_document fun here => spares here.symm
  | mount document parent fixtures =>
      cases performed
      exact .of_document fun here => spares here.symm
  | operate document element operator value =>
      cases performed
      exact .of_document fun here => spares here.symm
  | report message =>
      cases performed
      exact .of_tables rfl rfl rfl rfl rfl fun _ _ => Nat.le_refl _
  | trigger hub event => cases silent
  | write model attributes => cases silent
  | assign accessor value => cases silent
  | announceEdit document element => cases silent
  | typeInto document element text => cases silent
  | _ => exact spares.elim

/-- Another slot that does not write the face is applied anew. -/
theorem look_renewed {other : Ref .binding} {at_ : Nat} {b : Binding} {slot : Slot}
    {compiled : Compiled} {look : Json} (message : Message) (alike : seat.start.Alike w)
    (spares : ¬ seat.start.Writes other at_ seat.row.document seat.row.element seat.face)
    (wired : w.bindings.get? other = some b) (live : b.disposed = false)
    (seated : b.slots[at_]? = some slot) (current : slot.current b w.sight = .ok compiled)
    (shows : w.lookAt seat.row.document seat.row.element seat.face = some look) :
    (w.renew other at_ b slot message compiled).lookAt seat.row.document seat.row.element seat.face =
      some look := by
  obtain ⟨element, there, rfl⟩ := Option.map_eq_some_iff.mp shows
  rw [World.lookAt_of_element (World.elementAt_renew other at_ b slot message compiled there)]
  split
  · rename_i here
    -- if the face looked different now, the slot would write it
    refine Classical.byContradiction fun changes => spares (World.Writes.of_alike alike ?_)
    exact ⟨b, slot, wired, live, here.1.symm, here.2.symm, seated, w.sight, compiled,
      element.content, current, fun same => changes (congrArg some same)⟩
  · rfl

end Seat

namespace Follower

/-- A slot, with one of the faces it shows, and how that should look. -/
def ofSeat (seat : Seat σ) (looks : Model σ → Json → Prop) : Follower σ where
  ready := seat.Ready
  fresh := seat.Holds looks
  own reaction := reaction = seat.reaction ∨
    seat.listener.isSome = true ∧ reaction = .push seat.binding seat.index
  subscriptions := seat.subscriptions
  attendances := seat.listener.toList.map fun id => ⟨seat.row.document, seat.row.element, id⟩
  tolerates other at_ := (other, at_) = (seat.binding, seat.index) ∨
    ∃ b, seat.start.bindings.get? other = some b ∧ b.disposed = false ∧
      ¬ seat.start.Writes other at_ seat.row.document seat.row.element seat.face
  permits call := call.Spares seat.row.document seat.row.element seat.face
    (seat.listener.isSome = true) ∧ call.Retains seat.pins
  disturbs _ := False

variable {seat : Seat σ} {looks : Model σ → Json → Prop} {held : List Handle} {s : State σ}
  {fire : Fire σ}

/-- Where nothing is pinned, anything may be let go of. -/
theorem ofSeat_permits (none : seat.pins = []) : (ofSeat seat looks).permits =
    Call.Spares seat.row.document seat.row.element seat.face (seat.listener.isSome = true) := by
  funext call
  refine propext (and_iff_left ?_)
  rw [none]
  cases call with
  | release handle => exact List.not_mem_nil
  | _ => trivial

theorem ofSeat_keeps {v w : World σ} (still : ∀ {held}, seat.Ready held v → seat.Still v w) :
    (ofSeat seat looks).Keeps v w := fun _ ready =>
  ⟨(still ready).stays.ready ready, (still ready).holds ready⟩

theorem ofSeat_noted (entry : Entry) (w : World σ) :
    (ofSeat seat looks).Keeps w { w with journal := w.journal ++ [entry] } :=
  ofSeat_keeps fun _ => .of_tables rfl rfl rfl rfl rfl fun _ _ => Nat.le_refl _

theorem ofSeat_put {w : World σ} {model : Ref .model} {m m' : Model σ}
    {changes : List (String × Json)} (present : w.models.get? model = some m)
    (shape : m.SameShape m') (sound : (w.put model m').Sound) (ready : seat.Ready held w)
    (keeps : seat.law m → seat.law m')
    (still : seat.shape.SameShape m → seat.law m → ¬ seat.HearsOneOf m.hub changes →
      ∀ look, looks m look → looks m' look) :
    seat.Ready held (w.put model m') ∧ (seat.Holds looks w → seat.Holds looks (w.put model m') ∨
      (ofSeat seat looks).HearsOneOf m.hub changes) := by
  refine ⟨(seat.stays_put present shape sound fun _ => keeps).ready ready, fun holds => ?_⟩
  by_cases hears : (ofSeat seat looks).HearsOneOf m.hub changes
  · exact Or.inr hears
  · refine Or.inl fun found element there page => ?_
    obtain ⟨m₀, present₀, shape₀, lawful⟩ := ready.model
    rcases World.get?_put present there with ⟨rfl, rfl⟩ | ⟨-, was⟩
    · rw [present] at present₀
      cases present₀
      exact still shape₀ lawful hears _ (holds m element present page)
    · exact holds found element was page

theorem ofSeat_robust (shows : seat.Shows looks) : (ofSeat seat looks).Robust where
  registered ready _ sub listed := ⟨seat.reaction, Or.inl rfl, ready.registered sub listed⟩
  attended := by
    intro _ w ready _ a listed
    obtain ⟨id, needed, rfl⟩ := List.mem_map.mp listed
    have asked : seat.listener = some id := Option.mem_toList.mp needed
    obtain ⟨element, there, listens⟩ := ready.element
    obtain ⟨d, present, found⟩ := Option.bind_eq_some_iff.mp there
    refine ⟨.push seat.binding seat.index, Or.inr ⟨by rw [asked]; rfl, rfl⟩, d, present, ?_⟩
    rw [Document.listeners, found]
    exact listens id asked
  marked hubs models documents bindings views held :=
    ofSeat_keeps fun _ => .of_tables hubs models documents bindings views
      fun handle _ => Nat.le_of_eq (by rw [held])
  held handle _ w ready := ⟨ready.hold handle, id⟩
  released handle _ w ready :=
    ⟨ready.freed.still_released.stays.ready ready.freed,
      ready.freed.still_released.holds ready.freed⟩
  subscribed hub event callback w := ofSeat_keeps fun _ => seat.still_subscribe hub event callback w
  listened document element callback w :=
    ofSeat_keeps fun _ => seat.still_listen document element callback w
  stored present plain ready :=
    ofSeat_put present (Model.sameShape_store _ _)
      (World.sound_put_store ready.sound present fun regular => plain regular.maps) ready
      (shows.written plain) fun shape _ silent _ => shows.stored shape plain silent
  adopted present found scalar moved _ ready :=
    ofSeat_put present (Model.sameShape_adopt _ _ _)
      (World.sound_put_adopt ready.sound present found scalar) ready (shows.kept _ found)
      fun shape lawful silent _ => shows.adopted shape lawful (ready.sound.stored _ _ present) found
        scalar moved silent

/-! ## Being applied anew -/

/-- In a world that is ready for the slot, it is there, and its document is kept. -/
theorem ofSeat_row (sits : seat.Sits) {w : World σ} (ready : seat.Ready held w) :
    ∃ b slot, w.bindings.get? seat.binding = some b ∧ b.outline = seat.row.outline ∧
      b.slots[seat.index]? = some slot ∧ slot.outline = seat.slot.outline ∧
      w.keepsDocument b.document = true := by
  obtain ⟨b, there, same⟩ := ready.alike.row sits.present
  obtain ⟨slot, seated, sameSlot⟩ := Binding.slot_of_outline same sits.seated
  refine ⟨b, slot, there, same, seated, sameSlot, ?_⟩
  rw [Binding.document_of_outline same]
  exact ready.document_kept

theorem ofSeat_renewed (sits : seat.Sits) (shows : seat.Shows looks) (event : String) :
    Run.Follows ((ofSeat seat looks).Takes (fun _ => True) (ofSeat seat looks).fresh)
      (Run.reapply seat.binding seat.index event) s := by
  refine Run.follows_reapply (fun gone _ ready => ?_)
    (fun b slot compiled wired seated current _ ready _ => ?_) fun error spans _ ready _ => ?_
  · obtain ⟨b, slot, wired, -, seated, -, kept⟩ := ofSeat_row sits ready.1
    exact absurd kept (gone b slot wired seated)
  · obtain ⟨b', slot', wired', same, seated', sameSlot, -⟩ := ofSeat_row sits ready.1
    rw [wired] at wired'
    cases wired'
    rw [seated] at seated'
    cases seated'
    refine ⟨⟨(seat.stays_renew wired seated _ _).ready ready.1, ready.2⟩, fun _ _ => ?_⟩
    intro m element present there
    obtain ⟨element₀, there₀, -⟩ := ready.1.element
    obtain ⟨-, models, -⟩ := World.renew_tables seat.binding seat.index b slot
      (Run.reapplication b slot event) compiled s.world
    rw [State.alter_world, models] at present
    rw [State.alter_world, World.elementAt_renew _ _ _ _ _ _ there₀, Binding.document_of_outline same,
      Binding.element_of_outline same, if_pos ⟨rfl, rfl⟩] at there
    cases there
    rw [Slot.operator_of_outline sameSlot, sits.value_of_current same sameSlot present current]
    exact shows.applied _
  · refine ⟨⟨(@ofSeat_noted σ seat looks _ s.world _ ready.1).1, ready.2⟩, fun sound => ?_⟩
    exact absurd (World.failed_append error spans s.world) sound

/-- Another slot that does not write the face is applied anew. -/
theorem ofSeat_reapplied {other : Ref .binding} {at_ : Nat}
    (tolerated : (ofSeat seat looks).tolerates other at_)
    (notOwn : ¬ (ofSeat seat looks).own (.reapply other at_)) (event : String) :
    Run.Follows ((ofSeat seat looks).Takes (ofSeat seat looks).fresh (ofSeat seat looks).fresh)
      (Run.reapply other at_ event) s := by
  refine Run.follows_reapply (fun _ _ ready _ => ⟨ready, fun _ => id⟩)
    (fun b slot compiled wired seated current _ ready _ => ?_) fun error spans _ ready _ => ?_
  · have stays := seat.stays_renew wired seated (Run.reapplication b slot event) compiled
    refine ⟨⟨stays.ready ready.1, ready.2⟩, fun _ holds => ?_⟩
    intro m element present there
    obtain ⟨element₀, there₀, -⟩ := ready.1.element
    obtain ⟨-, models, -⟩ := World.renew_tables other at_ b slot
      (Run.reapplication b slot event) compiled s.world
    rw [State.alter_world, models] at present
    have shown := holds m element₀ present there₀
    rcases tolerated with own | ⟨b₀, wired₀, live, spares⟩
    · cases own
      exact absurd (Or.inl rfl) notOwn
    · obtain ⟨b', wired', same⟩ := ready.1.alike.row wired₀
      cases wired.symm.trans wired'
      have renewed := Seat.look_renewed (Run.reapplication b slot event) ready.1.alike spares wired
        ((Binding.disposed_of_outline same).trans live) seated current
        (World.lookAt_of_element there₀ seat.face)
      rw [State.alter_world] at there
      rw [World.lookAt_of_element there] at renewed
      rw [Option.some.inj renewed]
      exact shown
  · obtain ⟨there, still⟩ := ofSeat_noted ⟨.failed error, spans⟩ s.world ready.1
    exact ⟨⟨there, ready.2⟩, fun _ => still⟩

/-! ## Being edited -/

theorem look_setValue_ne {face : Face} (other : face ≠ .value) (value : Json) (c : Content) :
    (c.setValue value).look face = c.look face := by
  cases face with
  | value => exact absurd rfl other
  | _ => rfl

theorem ofSeat_typed {w : World σ} {document : Ref .document} {element : Ref .element}
    {text : String} (permitted : (ofSeat seat looks).permits (.typeInto document element text))
    (ready : seat.Ready held w) :
    seat.Ready held (w.editDocument document (.amend element (.setValue (.text text)))) ∧
      (seat.Holds looks w →
        seat.Holds looks (w.editDocument document (.amend element (.setValue (.text text)))) ∨
          (ofSeat seat looks).HearsSignal (.edit document element)) := by
  refine ⟨(seat.stays_amend document element _ w).ready ready, fun holds => ?_⟩
  by_cases shows : document = seat.row.document ∧ element = seat.row.element ∧ seat.face = .value
  · obtain ⟨rfl, rfl, faces⟩ := shows
    obtain ⟨id, needed⟩ := Option.isSome_iff_exists.mp (permitted.1 rfl rfl faces)
    exact Or.inr ⟨id, ⟨seat.row.document, seat.row.element, id⟩,
      List.mem_map.mpr ⟨id, Option.mem_toList.mpr needed, rfl⟩, rfl, rfl, rfl⟩
  · refine Or.inl ((Seat.Still.of_document fun sameDocument =>
      Document.spares_amend fun sameElement c => ?_).holds ready holds)
    exact look_setValue_ne (fun faces => shows ⟨sameDocument.symm, sameElement.symm, faces⟩) _ c

/-! ## All together -/

theorem ofSeat_called {call : Call σ} (permitted : (ofSeat seat looks).permits call)
    (silent : call.dispatches = false) :
    Run.Follows ((ofSeat seat looks).Takes (ofSeat seat looks).fresh (ofSeat seat looks).fresh)
      (Run.perform fire call) s := by
  intro ended t performed deep
  have plain : call.computes = false := by
    cases call with
    | bindComputed model definitions => exact permitted.1.elim
    | unbindComputed model => exact permitted.1.elim
    | _ => rfl
  obtain ⟨before, ⟨-, callbacks⟩, noted⟩ := Run.apart_perform silent plain ended t performed deep
  refine ⟨before, fun _ ready _ => ?_, noted⟩
  have still : seat.Still s.world t.world := by
    by_cases frees : ∃ handle, call = .release handle
    · obtain ⟨handle, rfl⟩ := frees
      cases performed
      exact ready.1.still_release permitted.2
    · exact Seat.still_perform permitted.1 silent (fun handle same => frees ⟨handle, same⟩) performed
  exact ⟨⟨still.stays.ready ready.1, callbacks ▸ ready.2⟩, fun _ => still.holds ready.1⟩

/-- What pushes the value of the element, where that is needed, brings the slot in step too. -/
def Pushes (seat : Seat σ) (looks : Model σ → Json → Prop) : Prop :=
  ∀ (fire : Fire σ) (s : State σ), (ofSeat seat looks).Attentive fire →
    seat.listener.isSome = true →
      Run.Follows ((ofSeat seat looks).Takes (fun _ => True) (ofSeat seat looks).fresh)
        (Run.push fire seat.binding seat.index) s

theorem ofSeat_lawful (sits : seat.Sits) (shows : seat.Shows looks) (pushes : Pushes seat looks) :
    (ofSeat seat looks).Lawful where
  toRobust := ofSeat_robust shows
  renewed {fire reaction} attentive own event s := by
    rcases own with rfl | ⟨needed, rfl⟩
    · exact ofSeat_renewed sits shows event.name
    · exact pushes fire s attentive needed
  tolerant {_ w sub other at_} ready registered := by
    by_cases mine : (other, at_) = (seat.binding, seat.index)
    · exact Or.inl mine
    · obtain ⟨b, present, live, -⟩ := ready.sound.wired.tended sub other at_ registered
      obtain ⟨b₀, present₀, outline⟩ := ready.alike.symm.row present
      refine Or.inr ⟨b₀, present₀, (Binding.disposed_of_outline outline).trans live, fun writes => ?_⟩
      exact sits.uncontested ⟨other, at_, mine, writes⟩
  typed permitted ready := ofSeat_typed permitted ready
  reapplied _ _ event _ notOwn tolerated := ofSeat_reapplied tolerated notOwn event
  called _ permitted silent _ := ofSeat_called permitted silent

/-- Dispatches are attentive to a slot. -/
theorem attentive_ofSeat (sits : seat.Sits) (shows : seat.Shows looks)
    (pushes : Pushes seat looks) (depth : Nat) :
    (ofSeat seat looks).Attentive (Run.dispatch depth) :=
  attentive (ofSeat_lawful sits shows pushes) goes depth

/-- After a run in which all goes well the face looks as it should, where nothing is pushed and
clients leave it alone. -/
theorem holds_run {t : State σ} {depth : Nat} {program : Program σ} (sits : seat.Sits)
    (shows : seat.Shows looks) (unneeded : seat.listener = none) (unpinned : seat.pins = [])
    (callbacks : ∀ callback ∈ s.callbacks, ∀ event, (callback event).Only
      (Call.Spares seat.row.document seat.row.element seat.face False))
    (allowed : program.Only (Call.Spares seat.row.document seat.row.element seat.face False))
    (ended : (Run.run depth program).result s = (.ok (), t))
    (undisturbed : ¬ s.world.Failed t.world) (ready : seat.Ready [] s.world)
    (holds : seat.Holds looks s.world) : seat.Ready [] t.world ∧ seat.Holds looks t.world := by
  have never : (seat.listener.isSome = true) = False := by simp [unneeded]
  have permits : (ofSeat seat looks).permits =
      Call.Spares seat.row.document seat.row.element seat.face False := by
    rw [ofSeat_permits unpinned, never]
  have pushes : Pushes seat looks := fun _ _ _ needed => (never ▸ needed : False).elim
  rw [← permits] at callbacks allowed
  have takes := takes_exec (ofSeat_lawful sits shows pushes)
    (attentive_ofSeat sits shows pushes depth) allowed _ _ ended nofun
  obtain ⟨⟨there, -⟩, brings⟩ := takes.2.1 ⟨ready, callbacks⟩ fun ⟨_, _, never⟩ => never
  exact ⟨there, brings undisturbed holds⟩

end Follower

end LiveBinding
