/-
# LiveBinding.Proofs.Run.Told -- a dispatch tells what it is due to tell

While clients only record and nobody else listens, all that happens in a write to a model is
that its computed properties are updated, one within the other, each fed by what has just
changed (`Scene`).  What feeds ranks above what is fed, so while a change is told neither it
nor anything above it changes.

`Tells` says what a stretch of a write tells of the model: of each name first what is
due, because it was stored before, and then what changes on the way.  No name has both: what
is due is out of `reach` of the changes.  One stretch after another tells what both do
(`Tells.append`), and what an opening has stored is due to be told by its dispatches
(`Tells.opened`).
-/
import LiveBinding.Proofs.Model.Cycle
import LiveBinding.Proofs.Run.News
import LiveBinding.Proofs.Run.Opening
import LiveBinding.Proofs.World.Kept
import LiveBinding.Proofs.World.Lasts

namespace LiveBinding

set_option autoImplicit false

variable {σ : Type}

/-! ## Scenes -/

/-- The value of a name that changes when this is announced. -/
def World.origin (model : Ref .model) (w : World σ) (name : String) : Json :=
  match w.models.get? model with
  | some m => m.origin name
  | none => .null

/-- Around the model nobody but its own properties updates it, and these are fed by what
ranks higher; whoever else listens only records. -/
structure Scene (model : Ref .model) (m : Model σ) (rank : String → Nat) (s : State σ) : Prop where
  present : s.world.models.get? model = some m
  falls : ∀ before after, m.Feeds before after → rank after < rank before
  fed : ∀ sub name, Registered s.world.hubs sub (.refresh model name) →
    ∃ before, sub.hub = m.hub ∧ sub.event = changeOf before ∧ m.Feeds before name
  alone : s.world.OwnHubs
  unpushed : ∀ sub binding slot, ¬ Registered s.world.hubs sub (.push binding slot)
  ordered : Ordered s.world.hubs
  records : ∀ sub number, Registered s.world.hubs sub (.client number) →
    ∀ callback, s.callbacks[number]? = some callback → ∀ event, (callback event).Records

/-- The scene of the first state still stands: who listens is the same, and all models are
kept that were there, with the same properties. -/
structure State.Stands (first s : State σ) : Prop where
  hubs : s.world.hubs = first.world.hubs
  callbacks : s.callbacks = first.callbacks
  views : s.world.views = first.world.views
  rows : ∀ other found, s.world.models.get? other = some found →
    ∃ old, first.world.models.get? other = some old ∧ old.SameShape found
  there : ∀ other, (first.world.models.get? other).isSome → (s.world.models.get? other).isSome
  kept : s.world.ModelsKept

namespace State.Stands

variable {first s t : State σ}

theorem refl (kept : first.world.ModelsKept) : first.Stands first :=
  ⟨rfl, rfl, rfl, fun _ found present => ⟨found, present, .refl found⟩, fun _ => id, kept⟩

theorem of_alike (stands : first.Stands s) (alike : s.Alike t) : first.Stands t where
  hubs := alike.hubs.trans stands.hubs
  callbacks := alike.callbacks.trans stands.callbacks
  views := alike.views.trans stands.views
  rows other found present := stands.rows other found (alike.models ▸ present)
  there other before := by
    rw [alike.models]
    exact stands.there other before
  kept := stands.kept.of_same alike.models fun model keeps =>
    (World.keepsModel_of_same alike.held alike.views model).trans keeps

/-- What is there was there when the scene began, and since. -/
theorem there_of (stands : first.Stands s) (standsThen : first.Stands t) {other : Ref .model}
    (there : (t.world.models.get? other).isSome) : (s.world.models.get? other).isSome := by
  obtain ⟨found, present⟩ := Option.isSome_iff_exists.mp there
  obtain ⟨old, was, -⟩ := standsThen.rows other found present
  exact stands.there other (by rw [was]; rfl)

end State.Stands

/-- Who is told of changes of the name: everybody, or a listener for them. -/
def World.Listens (hub : Ref .hub) (name : String) (w : World σ) (who : Option Nat) : Prop :=
  who = none ∨ ∃ id reaction, who = some id ∧ Registered w.hubs ⟨hub, id, changeOf name⟩ reaction

/-! ## What a stretch tells -/

/-- What is told from one state to the next: of each name first what is due, and then what
has moved its value, which only moves within reach. -/
structure Tells (first : State σ) (model : Ref .model) (hub : Ref .hub)
    (due : Option Nat → String → List Json) (reach : String → Prop) (ms : List (Moment σ))
    (s t : State σ) : Prop where
  stands : first.Stands t
  held : t.world.held = s.world.held
  told : ∀ name, ∃ moved,
    (∀ who, first.world.Listens hub name who →
      payloads hub (changeOf name) who ms = due who name ++ moved) ∧
    t.world.origin model name = replay (s.world.origin model name) moved ∧
    (¬ reach name → moved = [])

abbrev nothingDue : Option Nat → String → List Json := fun _ _ => []

namespace Tells

variable {first : State σ} {model : Ref .model} {hub : Ref .hub}
  {due due' : Option Nat → String → List Json} {reach reach' : String → Prop}
  {ms ms' : List (Moment σ)} {s t u : State σ}

theorem mono (tells : Tells first model hub due reach ms s t)
    (within : ∀ name, reach name → reach' name)
    (same : ∀ name who, first.world.Listens hub name who → due who name = due' who name) :
    Tells first model hub due' reach' ms s t := by
  refine ⟨tells.stands, tells.held, fun name => ?_⟩
  obtain ⟨moved, told, origin, still⟩ := tells.told name
  refine ⟨moved, fun who listens => ?_, origin, fun beyond => still fun near => beyond (within name near)⟩
  rw [told who listens, same name who listens]

/-- One stretch and then another, none of whose dues is within reach of the first. -/
theorem append (tells : Tells first model hub due reach ms s t)
    (then_ : Tells first model hub due' reach ms' t u)
    (apart : ∀ name, reach name → ∀ who, due' who name = []) :
    Tells first model hub (fun who name => due who name ++ due' who name) reach (ms ++ ms') s u := by
  refine ⟨then_.stands, then_.held.trans tells.held, fun name => ?_⟩
  obtain ⟨moved, told, origin, still⟩ := tells.told name
  obtain ⟨more, toldThen, originThen, stillThen⟩ := then_.told name
  refine ⟨moved ++ more, fun who listens => ?_, ?_, fun beyond => ?_⟩
  · rw [payloads_append, told who listens, toldThen who listens]
    by_cases near : reach name
    · rw [apart name near who]
      simp
    · rw [still near]
      simp
  · rw [originThen, origin, replay_append]
  · rw [still beyond, stillThen beyond]
    rfl

/-- What leaves the scene alone tells what it tells. -/
theorem of_alike (stands : first.Stands s) (alike : s.Alike t) (reach : String → Prop)
    (told : ∀ name who, payloads hub (changeOf name) who ms = due who name) :
    Tells first model hub due reach ms s t := by
  refine ⟨stands.of_alike alike, alike.held, fun name => ⟨[], fun who _ => ?_, ?_, fun _ => rfl⟩⟩
  · rw [told, List.append_nil]
  · rw [World.origin, World.origin, alike.models]
    rfl

theorem of_silent (stands : first.Stands s) (alike : s.Alike t) (reach : String → Prop)
    (silent : ∀ m ∈ ms, m.point.news = none) :
    Tells first model hub nothingDue reach ms s t :=
  of_alike stands alike reach fun _ _ => payloads_of_silent silent

end Tells

/-! ## One dispatch after another -/

def Signal.IsEvent : Signal → Prop
  | .event _ _ => True
  | .edit _ _ => False

namespace Run

/-- Each dispatch of an event tells that event, and moves what is within its reach. -/
def Attests (first : State σ) (model : Ref .model) (hub : Ref .hub)
    (reach : Signal → String → Prop) (visit : Signal → State σ → List (Moment σ))
    (fire : Fire σ) : Prop :=
  ∀ signal, signal.IsEvent → ∀ s t, first.Stands s → (fire signal).result s = (.ok (), t) →
    Tells first model hub (fun _ name => signal.payload hub (changeOf name)) (reach signal)
      (visit signal s) s t

variable {first : State σ} {model : Ref .model} {hub : Ref .hub} {reach : Signal → String → Prop}
  {visit : Signal → State σ → List (Moment σ)} {fire : Fire σ} {s t : State σ}

/-- So do dispatches one after another, if what they tell is not within reach of each
other. -/
theorem tells_fireAll {signals : List Signal} {within : String → Prop}
    (attests : Attests first model hub reach visit fire)
    (events : ∀ signal ∈ signals, signal.IsEvent ∧ ∀ name, reach signal name → within name)
    (apart : ∀ name, within name → ∀ signal ∈ signals, signal.payload hub (changeOf name) = [])
    (stands : first.Stands s) (fired : (fireAll fire signals).result s = (.ok (), t)) :
    Tells first model hub (fun _ name => signals.flatMap (Signal.payload hub (changeOf name))) within
      (fireMoments visit fire signals s) s t := by
  induction signals generalizing s with
  | nil =>
      cases fired
      exact .of_silent stands (.refl _) within fun _ none => absurd none List.not_mem_nil
  | cons signal rest ih =>
      rw [fireAll] at fired
      obtain ⟨⟨⟩, r, here, later⟩ := bind_ok fired
      obtain ⟨event, near⟩ := events signal List.mem_cons_self
      have tells := (attests signal event s r stands here).mono near fun _ _ _ => rfl
      have more := ih (fun other listed => events other (List.mem_cons_of_mem _ listed))
        (fun name inside other listed => apart name inside other (List.mem_cons_of_mem _ listed))
        tells.stands later
      rw [fireMoments, here]
      refine tells.append more fun name inside _ => List.flatMap_eq_nil_iff.mpr fun other listed => ?_
      exact apart name inside other (List.mem_cons_of_mem _ listed)

end Run

/-! ## What is stored is due -/

namespace Opening

/-- The opening has put a row in the place of a model's, which it holds, and has these
changes announced; then it lets go. -/
structure Puts (model : Ref .model) (row : Model σ) (changes : List (String × Json))
    (s : State σ) (settled : Errand) (t : State σ) : Prop where
  hubs : t.world.hubs = s.world.hubs
  callbacks : t.callbacks = s.callbacks
  views : t.world.views = s.world.views
  held : t.world.held = .model model :: s.world.held
  models : t.world.models = (s.world.put model row).models
  signals : settled.signals = announcements row.hub changes
  closes : ∀ w : World σ, ∃ spans,
    settled.close w = ({ w with spans := spans } : World σ).release (.model model)

variable {model : Ref .model} {m : Model σ} {name : String} {s t : State σ} {settled : Errand}

theorem route_callbacks {attributes routed pending : Attributes}
    (ended : (Run.route model attributes routed).result s = (.ok pending, t)) :
    t.callbacks = s.callbacks := by
  induction attributes generalizing routed s with
  | nil =>
      cases ended
      rfl
  | cons entry rest ih =>
      obtain ⟨name, value⟩ := entry
      rw [Run.route, Run.result_world_bind] at ended
      split at ended
      · exact ih ended
      · split at ended
        · cases ended
        · obtain ⟨mapped, r, maps, ended⟩ := Run.bind_ok ended
          rw [Run.applySetter, Run.result_bind_ok (Run.result_get s),
            Run.result_bind_ok (Run.result_modify _ s)] at maps
          split at maps
          · cases maps
            have rest := ih ended
            exact rest
          · cases maps

theorem puts_write {attributes : Attributes} (present : s.world.models.get? model = some m)
    (opened : (write model attributes).result s = (.ok settled, t)) :
    ∃ pending, (m.MapsAside → ∀ name ∈ Fields.keys pending, m.isComputed name = false) ∧
      Puts model { m with store := (m.store.apply pending).1 } (m.store.apply pending).2 s settled
        t := by
  rw [write, result_keeping] at opened
  split at opened
  · rename_i settled' t' worked
    cases opened
    obtain ⟨pending, r, routed, stored⟩ := Run.bind_ok worked
    obtain ⟨same, aside⟩ := Run.route_ok routed
    have callbacks := route_callbacks routed
    have there : r.world.models.get? model = some m := by
      rw [same]
      exact present
    have left : r.world.hubs = s.world.hubs ∧ r.world.views = s.world.views ∧
        r.world.held = .model model :: s.world.held ∧ r.world.models = s.world.models := by
      rw [same]
      exact ⟨rfl, rfl, rfl, rfl⟩
    obtain ⟨hubs, views, held, models⟩ := left
    rw [result_writeStore there] at stored
    cases stored
    refine ⟨pending, fun mapsAside => aside m present mapsAside
      fun _ none => absurd none List.not_mem_nil, hubs, callbacks, views, held, ?_, rfl,
      fun w => ⟨w.spans, rfl⟩⟩
    rw [State.alter_world, World.put, World.put, models]
  · cases opened

theorem puts_refresh (opened : (refresh model name).result s = (.ok settled, t)) :
    (settled = .nothing ∧ t = s) ∨
    ∃ m p row changes, s.world.models.get? model = some m ∧ m.property? name = some p ∧
      Puts model row changes s settled t ∧
      (row = m ∧ changes = [] ∨ ∃ value, (row, changes) = m.adopt p value) := by
  rw [refresh, Run.result_world_bind] at opened
  split at opened
  · cases opened
    exact Or.inl ⟨rfl, rfl⟩
  · rename_i m present
    split at opened
    · cases opened
      exact Or.inl ⟨rfl, rfl⟩
    · rename_i p found
      obtain rfl := Model.name_of_property? found
      rw [result_keeping] at opened
      split at opened
      · rename_i settled' t' worked
        cases opened
        obtain ⟨given, r, evaluated, worked⟩ := Run.bind_ok worked
        obtain ⟨world, callbacks, -, -⟩ := Run.evaluate_ok evaluated
        have there : r.world.models.get? model = some m := by
          rw [world]
          exact present
        have left : r.world.hubs = s.world.hubs ∧ r.world.views = s.world.views ∧
            r.world.held = .model model :: s.world.held ∧ r.world.models = s.world.models := by
          rw [world]
          exact ⟨rfl, rfl, rfl, rfl⟩
        obtain ⟨hubs, views, held, models⟩ := left
        split at worked
        · cases worked
          have same : s.world.put model m = s.world := by
            have kept := World.update_eq_put present id
            rw [Table.update_id] at kept
            exact kept.symm
          refine Or.inr ⟨m, p, m, [], present, found, ⟨hubs, callbacks, views, held, ?_, rfl,
            fun w => ⟨w.spans, rfl⟩⟩, Or.inl ⟨rfl, rfl⟩⟩
          rw [models, same]
        · rw [result_publish there] at worked
          cases worked
          refine Or.inr ⟨m, p, (m.adopt p given.1).1, (m.adopt p given.1).2, present, found, ⟨hubs,
            callbacks, views, held, ?_, ?_, fun w => ⟨r.world.spans, rfl⟩⟩, Or.inr ⟨given.1, rfl⟩⟩
          · show (r.world.put model (m.adopt p given.1).1).models = _
            rw [World.put, World.put, models]
          · rw [(Model.sameShape_adopt p given.1 m).1]
            rfl
      · cases opened

namespace Puts

variable {first u v : State σ} {other : Ref .model} {old row : Model σ}
  {changes : List (String × Json)}

/-- The scene still stands with the new row, if it has the properties of the old one. -/
theorem stands (puts : Puts other row changes s settled u) (stands : first.Stands s)
    (present : s.world.models.get? other = some old) (same : old.SameShape row) :
    first.Stands u where
  hubs := puts.hubs.trans stands.hubs
  callbacks := puts.callbacks.trans stands.callbacks
  views := puts.views.trans stands.views
  rows at_ found there := by
    rw [puts.models] at there
    rcases World.get?_put present there with ⟨rfl, rfl⟩ | ⟨-, was⟩
    · obtain ⟨first_, before, shape⟩ := stands.rows at_ old present
      exact ⟨first_, before, shape.trans same⟩
    · exact stands.rows at_ found was
  there at_ before := by
    rw [puts.models]
    by_cases here : at_ = other
    · subst here
      rw [World.get?_put_self (stands.there at_ before)]
      rfl
    · rw [World.get?_put_ne here]
      exact stands.there at_ before
  kept at_ found there := by
    rw [puts.models] at there
    have was : ∃ found, s.world.models.get? at_ = some found := by
      rcases World.get?_put present there with ⟨rfl, rfl⟩ | ⟨-, was⟩
      · exact ⟨old, present⟩
      · exact ⟨found, was⟩
    obtain ⟨found, was⟩ := was
    rw [World.keepsModel_iff, puts.held, puts.views]
    exact (World.keepsModel_iff.mp (stands.kept at_ found was)).imp_left (List.mem_cons_of_mem _)

/-- What has been stored is told by the dispatches, and then all is let go. -/
theorem tells {hub : Ref .hub} {due : String → List Json} {within : String → Prop}
    {ms : List (Moment σ)} (puts : Puts other row changes s settled u) (stands : first.Stands s)
    (present : s.world.models.get? other = some old)
    (moved : ∀ name, u.world.origin model name = replay (s.world.origin model name) (due name))
    (tells : Tells first model hub (fun _ => due) within ms u v) :
    Tells first model hub nothingDue (fun name => within name ∨ due name ≠ []) ms s
      (v.alter settled.close) := by
  obtain ⟨spans, closed⟩ := puts.closes v.world
  have held : v.world.held = .model other :: s.world.held := tells.held.trans puts.held
  have views : v.world.views = s.world.views := tells.stands.views.trans stands.views.symm
  have keeps : ∀ at_, s.world.keepsModel at_ = true →
      ({ v.world with spans := spans, held := s.world.held } : World σ).keepsModel at_ = true := by
    intro at_ before
    refine Eq.trans (World.keepsModel_of_same ?_ ?_ at_) before
    · rfl
    · exact views
  rw [World.release_kept (w := { v.world with spans := spans }) held
    (keeps other (stands.kept other old present))] at closed
  refine ⟨⟨?_, tells.stands.callbacks, ?_, ?_, ?_, ?_⟩, ?_, fun name => ?_⟩
  all_goals rw [State.alter_world, closed]
  · exact tells.stands.hubs
  · exact tells.stands.views
  · exact tells.stands.rows
  · exact tells.stands.there
  · intro at_ found there
    obtain ⟨found, was⟩ := Option.isSome_iff_exists.mp
      (stands.there_of tells.stands (by rw [there]; rfl))
    exact keeps at_ (stands.kept at_ found was)
  · obtain ⟨more, told, origin, still⟩ := tells.told name
    refine ⟨due name ++ more, told, ?_, fun beyond => ?_⟩
    · rw [replay_append, ← moved]
      exact origin
    · rw [not_or, not_not] at beyond
      rw [beyond.2, still beyond.1]
      rfl

end Puts

end Opening

end LiveBinding
