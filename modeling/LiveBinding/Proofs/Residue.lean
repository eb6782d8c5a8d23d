/-
# LiveBinding.Proofs.Residue -- what former objects leave on an element

The operators that take an object write what it names and nothing else: they do not know
which objects they were given before.  So an element shows what its operator makes of all of
them, one after another, starting from the element as it was before the view was bound
(`objects_accumulate`).

When all went well, the object that is there in the end has been written.  What it names is
therefore as it would be on a fresh element, and so is what no object has named.  What only
former objects have named is left as they wrote it (`not_all_as_if_fresh`).
-/
import Mathlib
import LiveBinding.Proofs.Follower.Field
import LiveBinding.Proofs.Follower.Reading
import LiveBinding.Proofs.Run.Renewals

namespace LiveBinding

set_option autoImplicit false

variable {σ : Type}

structure Tied (s t : State σ) (view : Ref .view) (v : View) (m : Model σ) : Prop where
  reachable : Reachable s
  present : s.world.views.get? view = some v
  wired : s.world.models.get? v.model = some m
  ended : (Run.bindView view).result s = (.ok (), t)

namespace World

/-- A slot of a bound view writes the object that a name stands for with a standard operator, and
no other slot writes the face. -/
structure Spreads (w : World σ) (view : Ref .view) (binding : Ref .binding) (b : Binding)
    (index : Nat) (slot : Slot) (a : Accessor) (face : Face) : Prop where
  listed : ∃ v, w.views.get? view = some v ∧ binding ∈ v.bindings
  present : w.bindings.get? binding = some b
  seated : b.slots[index]? = some slot
  known : Index.get? slot.name Catalog.standard = some slot.operator
  takes : Operator.takesObject slot.name = true
  names : b.Names slot.name a
  uncontested : ¬ w.Contested binding index b.document b.element face

/-- The face shows what the operator of the slot makes of the content with these objects, one
after another. -/
def ShowsAll (w : World σ) (b : Binding) (slot : Slot) (face : Face) (before : Content)
    (objects : List Json) : Prop :=
  w.lookAt b.document b.element face = some ((slot.operator.applyAll objects before).look face)

/-- The seat of a slot that is bound to a name. -/
def nameSeat (w : World σ) (binding : Ref .binding) (b : Binding) (index : Nat) (slot : Slot)
    (a : Accessor) (m : Model σ) (expr : Expr) (face : Face) (heard : Subscription) : Seat σ where
  start := w
  model := a.model
  shape := m
  law := Model.IsLawful
  binding := binding
  index := index
  row := b
  slot := slot
  expr := expr
  face := face
  subscriptions := [heard]
  listener := none
  pins := []

end World

/-! ## Seats -/

variable {s t u : State σ} {view : Ref .view} {v : View} {m : Model σ} {binding : Ref .binding}
  {b : Binding} {index : Nat} {slot : Slot} {a : Accessor} {face : Face}

theorem Tied.wires (tied : Tied s t view v m) : Run.Wires view v s.world t.world :=
  Run.wires_bindView (sound_of_reachable tied.reachable) tied.present tied.ended

/-- The name is one of the model. -/
theorem Tied.own (tied : Tied s t view v m)
    (spreads : t.world.Spreads view binding b index slot a face) : a.model = v.model := by
  obtain ⟨-, env, -⟩ := tied.wires.slot spreads.listed spreads.present spreads.seated
  obtain ⟨_, word, _, -, -, defined⟩ := spreads.names
  rw [env, Run.environmentOf, tied.wired] at defined
  rw [Environment.get?_ofNames defined]

theorem Tied.model (tied : Tied s t view v m)
    (spreads : t.world.Spreads view binding b index slot a face) :
    t.world.models.get? a.model = some m := by
  rw [tied.own spreads, tied.wires.models, tied.wired]

/-- The slot can be followed from where it was bound, and the element was there before. -/
theorem Tied.exists_seat (tied : Tied s t view v m)
    (spreads : t.world.Spreads view binding b index slot a face) : ∃ expr heard before,
      (t.world.nameSeat binding b index slot a m expr face heard).Sits ∧
        (t.world.nameSeat binding b index slot a m expr face heard).Ready [] t.world ∧
        heard.hub = m.hub ∧ heard.event = changeOf a.name ∧
        (∀ read : Accessor → Json, expr.value b.env read = read a) ∧
        s.world.elementAt b.document b.element = some before ∧
        t.world.ShowsAll b slot face before.content [Accessor.value s.world.sight a] := by
  have wires := tied.wires
  obtain ⟨document, -, installed, covers⟩ :=
    wires.slot spreads.listed spreads.present spreads.seated
  obtain ⟨pair, word, offset, found, written, defined⟩ := spreads.names
  obtain ⟨pair', sight, c, found', compiles, holds, dirty, hears⟩ := installed.hears
  cases found.symm.trans found'
  rw [written] at compiles
  obtain ⟨a', defined', rfl⟩ := Expr.compile_name compiles
  cases defined.symm.trans defined'
  have own := tied.own spreads
  have there := tied.model spreads
  have lawful := lawful_of_attained (attained_of_reachable tied.reachable) _ m tied.wired
  obtain ⟨heard, hub, event, registered⟩ := hears a List.mem_cons_self m there
  obtain ⟨bindings, row, -⟩ := wires.bindings
  obtain ⟨element, page, -⟩ := installed.page
  obtain ⟨before, was, looked⟩ := covers spreads.known spreads.takes face spreads.uncontested
  refine ⟨.name word offset, heard, before, ?sits, ?ready, hub, event,
    fun read => by simp only [Expr.value, defined], was, ?shows⟩
  case sits =>
    exact {
      present := spreads.present
      seated := spreads.seated
      declared := ⟨pair, found, written⟩
      known := spreads.known
      hears := ⟨sight, _, compiles, holds, dirty, fun other read => by
        rw [List.mem_singleton.mp read]
        exact ⟨rfl, heard, List.mem_singleton.mpr rfl, hub, event⟩⟩
      uncontested := spreads.uncontested }
  case ready =>
    refine ⟨wires.sound, .refl t.world, fun _ none => absurd none List.not_mem_nil,
      Or.inr ⟨view, _, row, own.symm⟩, Or.inr ⟨view, _, row, document.symm⟩,
      ⟨m, there, .refl m, lawful⟩, ⟨element, page, fun _ listens => by cases listens⟩,
      fun s listed => ?_⟩
    rw [List.mem_singleton.mp listed]
    exact registered
  case shows =>
    have sight : t.world.sight = s.world.sight := by
      unfold World.sight
      rw [wires.models]
    rw [holds, sight] at looked
    exact looked

namespace World

variable {w : World σ} {expr : Expr} {heard : Subscription}

/-- The slot is applied with what the name stands for. -/
theorem nameSeat_renewals (reads : ∀ read : Accessor → Json, expr.value b.env read = read a)
    (ms : List (Moment σ)) :
    (w.nameSeat binding b index slot a m expr face heard).renewals ms =
      ms.filterMap (·.renews binding index (Accessor.value · a)) := by
  have same : (fun sight => expr.value b.env (Accessor.value sight)) = (Accessor.value · a) :=
    funext fun sight => reads _
  rw [Seat.renewals, ← same]
  rfl

/-- Where the slot goes with the name, the object that the name reads as was written. -/
theorem nameSeat_shows (reads : ∀ read : Accessor → Json, expr.value b.env read = read a)
    (hub : heard.hub = m.hub) (event : heard.event = changeOf a.name)
    (orderly : m.isComputed a.name = true →
      (m.properties.map (·.name)).Nodup ∧ m.MapsAside) :
    (w.nameSeat binding b index slot a m expr face heard).Shows
      ((w.nameSeat binding b index slot a m expr face heard).Reads a.name fun value look =>
        ∃ c, look = (slot.operator.apply value c).look face) := by
  refine Seat.shows_reads (fun _ => Iff.rfl) orderly
    ⟨heard, List.mem_singleton.mpr rfl, hub, event⟩ fun m c => ⟨c, ?_⟩
  rw [← reads fun a => m.read a.name]
  rfl

end World

/-! ## Runs -/

variable {depth : Nat} {program : Program σ} {ended : Except Halt Unit}

/-- The objects that the slot applies: the one that is there in the beginning, and those with
which it is applied anew at these moments. -/
def World.spread (w : World σ) (binding : Ref .binding) (index : Nat) (a : Accessor)
    (ms : List (Moment σ)) : List Json :=
  a.value w.sight :: ms.filterMap (·.renews binding index (Accessor.value · a))

/-- Binding a view is where a run can get to. -/
theorem Tied.trail (tied : Tied s t view v m) :
    ∃ client past, Trail ⟨.empty, [], client⟩ past none t := by
  obtain ⟨client, depth, program, ended, -, ran⟩ := tied.reachable
  have trail := Run.trail_moments depth program ⟨.empty, [], client⟩
  rw [ran] at trail
  have bound : (Run.perform (Run.dispatch 0) (.bindView view)).result s = (.ok (.ok ()), t) :=
    (Run.result_attempt (Run.bindView view) s).trans (by rw [tied.ended]; rfl)
  exact ⟨client, _, (trail.making (.bindView view)).answered rfl bound⟩

/-- However the run ended, the element shows what the operator makes of all objects that the slot
has applied. -/
theorem Tied.shows_objects (tied : Tied s t view v m)
    (spreads : t.world.Spreads view binding b index slot a face)
    (callbacks : ∀ callback ∈ t.callbacks, ∀ event, (callback event).Only
      (Call.Spares b.document b.element face False))
    (allowed : program.Only (Call.Spares b.document b.element face False))
    (ran : (Run.run depth program).result t = (ended, u)) :
    ∃ before, s.world.elementAt b.document b.element = some before ∧
      u.world.ShowsAll b slot face before.content
        (s.world.spread binding index a (Run.moments depth program t)) := by
  obtain ⟨expr, heard, before, sits, ready, -, -, reads, was, began⟩ := tied.exists_seat spreads
  obtain ⟨client, past, trail⟩ := tied.trail
  have stretch := Run.stretch_moments depth allowed callbacks
  rw [ran] at stretch
  have stands := Seat.shows_renewals sits spreads.takes rfl stretch
    (trail.callsLiving_moments depth program)
    ⟨.refl _, ready.keepsDocument.resolve_left List.not_mem_nil, began⟩
  rw [World.nameSeat_renewals reads] at stands
  exact ⟨before, was, stands.shows⟩

/-- If all went well, the object that is there in the end has been written. -/
theorem Tied.writes_object (tied : Tied s t view v m)
    (spreads : t.world.Spreads view binding b index slot a face)
    (callbacks : ∀ callback ∈ t.callbacks, ∀ event, (callback event).Only
      (Call.Spares b.document b.element face False))
    (allowed : program.Only (Call.Spares b.document b.element face False))
    (ran : (Run.run depth program).result t = (.ok (), u)) (undisturbed : ¬ t.world.Failed u.world)
    (orderly : m.isComputed a.name = true →
      (m.properties.map (·.name)).Nodup ∧ m.MapsAside) :
    ∃ m' object c, u.world.models.get? a.model = some m' ∧ m'.ReadsAs a.name object ∧
      (m.isComputed a.name = false → object = m'.read a.name) ∧
      u.world.lookAt b.document b.element face =
        some ((slot.operator.apply object c).look face) := by
  obtain ⟨expr, heard, before, sits, ready, hub, event, reads, -, began⟩ := tied.exists_seat spreads
  have wired := tied.model spreads
  have given : Accessor.value s.world.sight a = m.read a.name := by
    rw [Accessor.value, tied.own spreads, Run.sight_of_present tied.wired]
  obtain ⟨readyThen, holds⟩ := Follower.holds_run sits
    (World.nameSeat_shows reads hub event orderly) rfl rfl callbacks allowed ran undisturbed ready
    fun m' element present there => by
      cases wired.symm.trans present
      rw [World.ShowsAll, given] at began
      exact ⟨m.read a.name, Or.inl rfl, fun _ => rfl, before.content,
        Option.some.inj ((World.lookAt_of_element there face).symm.trans began)⟩
  obtain ⟨m', present, -⟩ := readyThen.model
  obtain ⟨element, there, -⟩ := readyThen.element
  obtain ⟨object, readsAs, plain, c, looks⟩ := holds m' element present there
  exact ⟨m', object, c, present, readsAs, plain,
    (World.lookAt_of_element there face).trans (congrArg some looks)⟩

/-- Where no other slot writes, and clients leave it alone, an element shows what the operator
makes of all objects that the slot has applied, one after another, starting from the element as
it was before the view was bound.

If all went well, the object that is there in the end has been written.  What it names, or no
object has named, shows as on a fresh element to which the operator was applied once, with that
object. -/
theorem objects_accumulate {objects : List Json} (tied : Tied s t view v m)
    (spreads : t.world.Spreads view binding b index slot a face)
    (callbacks : ∀ callback ∈ t.callbacks, ∀ event, (callback event).Only
      (Call.Spares b.document b.element face False))
    (allowed : program.Only (Call.Spares b.document b.element face False))
    (ran : (Run.run depth program).result t = (ended, u))
    (spread : s.world.spread binding index a (Run.moments depth program t) = objects) :
    ∃ before, s.world.elementAt b.document b.element = some before ∧
      u.world.ShowsAll b slot face before.content objects ∧
      (ended = .ok () → ¬ t.world.Failed u.world →
        (m.isComputed a.name = true → (m.properties.map (·.name)).Nodup ∧ m.MapsAside) →
        ∃ m' object, u.world.models.get? a.model = some m' ∧ m'.ReadsAs a.name object ∧
          (m.isComputed a.name = false → object = m'.read a.name) ∧
          u.world.ShowsAll b slot face before.content (objects ++ [object]) ∧
          ((face ∈ Face.named slot.name object ∨
              ∀ former ∈ objects, face ∉ Face.named slot.name former) →
            u.world.ShowsAll b slot face before.content [object])) := by
  obtain ⟨before, was, shows⟩ := tied.shows_objects spreads callbacks allowed ran
  rw [spread] at shows
  refine ⟨before, was, shows, fun well undisturbed orderly => ?_⟩
  subst well
  obtain ⟨m', object, c, present, readsAs, plain, looks⟩ :=
    tied.writes_object spreads callbacks allowed ran undisturbed orderly
  have written : (slot.operator.applyAll objects before.content).look face =
      (slot.operator.apply object c).look face := Option.some.inj (shows.symm.trans looks)
  -- the object was written, so that writing it once more changes nothing
  have again : u.world.ShowsAll b slot face before.content (objects ++ [object]) := by
    rw [World.ShowsAll, Operator.applyAll_concat,
      Operator.look_apply_again spreads.known spreads.takes written]
    exact shows
  refine ⟨m', object, present, readsAs, plain, again, fun fresh => ?_⟩
  rw [World.ShowsAll, Operator.look_applyAll_concat spreads.known spreads.takes fresh] at again
  exact again

/-! ## A run -/

namespace Sample

def poster : View :=
  .ofDeclarations ⟨0⟩ Document.root ⟨0⟩ [("p", "className: flags")]

def posting : Program Unit :=
  .call .openDocument fun (document : Ref .document) =>
    .call (.edit document (.create "p")) fun _ =>
      .call (.edit document (.appendChild Document.root ⟨1⟩)) fun _ =>
        .call (.openModel [("flags", .object [("a", .bool true)])]) fun _ =>
          .call (.openView poster) fun _ => .done

def posted : State Unit :=
  ((Run.run 0 posting).result ⟨.empty, [], ()⟩).2

def hung : State Unit :=
  ((Run.bindView ⟨0⟩).result posted).2

def flagged : Model Unit :=
  ⟨⟨0⟩, [("flags", .object [("a", .bool true)])], []⟩

def swapping : Program Unit :=
  .call (.write ⟨0⟩ [("flags", .object [("b", .bool true)])]) must

def swapped : State Unit :=
  ((Run.run 8 swapping).result hung).2

theorem tied_poster : Tied posted hung ⟨0⟩ poster flagged where
  reachable := ⟨(), 0, posting, .ok (), nofun, rfl⟩
  present := rfl
  wired := rfl
  ended := Run.result_of_isOk (by decide +kernel)

theorem ran_swapping : (Run.run 8 swapping).result hung = (.ok (), swapped) :=
  Run.result_of_isOk (by decide +kernel)

/-- The poster has one slot, and it writes the flags. -/
theorem exists_spread : ∃ b slot, (b.document, b.element) = (⟨0⟩, ⟨1⟩) ∧ slot.name = "className" ∧
    ∀ face, hung.world.Spreads ⟨0⟩ ⟨0⟩ b 0 slot ⟨"flags", ⟨0⟩⟩ face := by
  obtain ⟨b, slot, offset, among, present, seated, named, ⟨pair, found, written⟩, places, reads,
      uncontested⟩ := @exists_only_slot hung.world "className" "flags" (by decide +kernel)
    (by decide +kernel) (by decide +kernel)
  obtain ⟨-, -, installed, -⟩ := tied_poster.wires.slot among present seated
  exact ⟨b, slot, places, named, fun face => ⟨among, present, seated, installed.standard rfl,
    by rw [named]; rfl, ⟨pair, "flags", offset, found, written, reads⟩, uncontested face⟩⟩

theorem swapped_flagged : swapped.world.models.get? ⟨0⟩ =
    some ⟨⟨0⟩, [("flags", .object [("b", .bool true)])], []⟩ := by cbv

theorem spread_swapping : posted.world.spread ⟨0⟩ 0 ⟨"flags", ⟨0⟩⟩ (Run.moments 8 swapping hung) =
    [.object [("a", .bool true)], .object [("b", .bool true)]] := by cbv

end Sample

open Sample in
/-- The class that is there in the end shows as on a fresh paragraph. -/
theorem objects_accumulate_poster : ∃ b slot before,
    Tied posted hung ⟨0⟩ poster flagged ∧
      hung.world.Spreads ⟨0⟩ ⟨0⟩ b 0 slot ⟨"flags", ⟨0⟩⟩ (.ofClass "b") ∧
      (Run.run 8 swapping).result hung = (.ok (), swapped) ∧ ¬ hung.world.Failed swapped.world ∧
      posted.world.elementAt b.document b.element = some before ∧
      swapped.world.ShowsAll b slot (.ofClass "b") before.content
        [.object [("a", .bool true)], .object [("b", .bool true)]] ∧
      swapped.world.ShowsAll b slot (.ofClass "b") before.content
        [.object [("b", .bool true)]] := by
  obtain ⟨b, slot, places, named, spreads⟩ := exists_spread
  have silent : hung.callbacks = [] := List.length_eq_zero_iff.mp (by decide +kernel)
  have undisturbed : ¬ hung.world.Failed swapped.world := by decide +kernel
  have allowed : swapping.Only (Call.Spares b.document b.element (.ofClass "b") False) := by
    refine .call trivial ?_
    rintro (error | done)
    · exact .fail error
    · exact .done
  obtain ⟨before, was, shows, brings⟩ := objects_accumulate tied_poster (spreads (.ofClass "b"))
    (by rw [silent]; nofun) allowed ran_swapping spread_swapping
  obtain ⟨m', object, present, -, plain, -, fresh⟩ := brings rfl undisturbed nofun
  cases swapped_flagged.symm.trans present
  obtain rfl : object = .object [("b", .bool true)] := plain rfl
  refine ⟨b, slot, before, tied_poster, spreads _, ran_swapping, undisturbed, was, shows,
    fresh (Or.inl ?_)⟩
  rw [named]
  exact List.mem_singleton.mpr rfl

open Sample in
/-- Not every face shows as on a fresh element: the class that is gone from the flags is still
there. -/
theorem not_all_as_if_fresh : Tied posted hung ⟨0⟩ poster flagged ∧
    ∃ b slot before m', hung.world.Spreads ⟨0⟩ ⟨0⟩ b 0 slot ⟨"flags", ⟨0⟩⟩ (.ofClass "a") ∧
      (Run.run 8 swapping).result hung = (.ok (), swapped) ∧ ¬ hung.world.Failed swapped.world ∧
      posted.world.elementAt b.document b.element = some before ∧
      swapped.world.models.get? ⟨0⟩ = some m' ∧
      ¬ swapped.world.ShowsAll b slot (.ofClass "a") before.content [m'.read "flags"] := by
  obtain ⟨b, slot, places, named, spreads⟩ := exists_spread
  obtain ⟨document, element⟩ := Prod.mk.inj places
  have here := spreads (.ofClass "a")
  obtain ⟨before, was, bare⟩ : ∃ before, posted.world.elementAt ⟨0⟩ ⟨1⟩ = some before ∧
      before.content.look (.ofClass "a") = .bool false := by
    refine Option.map_eq_some_iff.mp (?_ : posted.world.lookAt ⟨0⟩ ⟨1⟩ (.ofClass "a") = _)
    cbv
  have left : swapped.world.lookAt ⟨0⟩ ⟨1⟩ (.ofClass "a") = some (.bool true) := by cbv
  refine ⟨tied_poster, b, slot, before, _, spreads _, ran_swapping, by decide +kernel, ?_,
    swapped_flagged, fun shows => ?_⟩
  · rw [document, element]
    exact was
  · rw [World.ShowsAll, document, element, left, Operator.look_applyAll_of_not_named here.known
      here.takes ?_, bare] at shows
    · cases shows
    · intro object among
      rw [List.mem_singleton.mp among, named]
      decide

end LiveBinding
