/-
# LiveBinding.Proofs.Run.Bears -- what openings are made of

But for the binding of properties, openings change a state in few ways: something is noted
in the journal, something is held or released, a span is opened or closed, mapping functions
and getters move the client's state, what was written is stored, and a property adopts its
new value.  A relation that bears each of these (`Bears`) and along which one can go on is
what openings lead by, however they end (`Bears.opening`, `Bears.reaction`).
-/
import LiveBinding.Proofs.Follower.Sound
import LiveBinding.Proofs.Run.Leads
import LiveBinding.Proofs.Run.Moment
import LiveBinding.Proofs.Run.Opening

namespace LiveBinding.Run

set_option autoImplicit false

variable {σ : Type}

/-- A store that is written to is all that a write changes. -/
theorem drives_writeStore {R : State σ → State σ → Prop} [IsPreorder (State σ) R] {s : State σ}
    {model : Ref .model} {pending : Attributes}
    (stored : ∀ m, s.world.models.get? model = some m →
      R s (s.alter (World.put model { m with store := (m.store.apply pending).1 }))) :
    Drives R (Opening.writeStore model pending) s := by
  rcases present : s.world.models.get? model with _ | m
  · refine .world_bind ?_
    simp only [present]
    exact drives_pure _
  · rw [Drives, Opening.result_writeStore present]
    exact stored m present

/-- The relation holds around each of the changes that openings make. -/
structure Bears (R : State σ → State σ → Prop) : Prop where
  failed : ∀ (error : Error) (s : State σ), R s (s.alter (.happen (.failed error)))
  reported : ∀ (message : Message) (s : State σ), R s (s.alter (.report message))
  held : ∀ (model : Ref .model) (s : State σ), R s (s.alter (.hold (.model model)))
  triggered : ∀ (hub : Ref .hub) (s : State σ), R s (s.alter (.hold (.hub hub)))
  closed : ∀ (closing : Closing) (s : State σ), R s (s.alter closing.apply)
  moved : ∀ (client : σ) (s : State σ), R s { s with client := client }
  stored : ∀ {s : State σ} {model : Ref .model} {m : Model σ} {pending : Attributes},
    s.world.models.get? model = some m →
    (m.MapsAside → ∀ name ∈ Fields.keys pending, m.isComputed name = false) →
    R s (s.alter (World.put model { m with store := (m.store.apply pending).1 }))
  adopted : ∀ {s : State σ} {model : Ref .model} {m : Model σ} {p : Property σ} {value : Json},
    s.world.models.get? model = some m → m.property? p.name = some p →
    (m.IsRegular → value.isScalar = true) → R s (s.alter (World.put model (m.adopt p value).1))

namespace Bears

variable {R : State σ → State σ → Prop} [IsPreorder (State σ) R] (bears : Bears R) {s : State σ}

include bears

omit [IsPreorder (State σ) R] in
theorem spanned (spans : List Span) (s : State σ) :
    R s (s.alter fun w => { w with spans := spans }) :=
  bears.closed (.resetSpans spans) s

theorem keeping {handle : Handle} {opening : Run σ Errand} (held : R s (s.alter (.hold handle)))
    (drives : Drives R opening (s.alter (.hold handle))) :
    Drives R (Opening.keeping handle opening) s :=
  drives_keeping held (bears.closed (.release handle)) drives

/-! ## Writes -/

theorem applySetter (name : String) (setter : Setter σ) (value : Json) :
    Drives R (applySetter name setter value) s := by
  have moved := bears.moved (setter value s.client).2 s
  rw [Run.applySetter, Drives, result_bind_ok (result_get s), result_bind_ok (result_modify _ s)]
  split
  · exact moved
  · exact trans_of R moved (bears.failed _ _)

theorem route (model : Ref .model) (attributes routed : Attributes) :
    Drives R (route model attributes routed) s := by
  induction attributes generalizing s routed with
  | nil => exact drives_pure _
  | cons entry rest ih =>
      refine .world_bind ?_
      split
      · exact ih _
      · split
        · exact bears.failed _ s
        · exact (bears.applySetter _ _ _).bind fun _ _ _ => ih _

theorem write (model : Ref .model) (attributes : Attributes) :
    Drives R (Opening.write model attributes) s := by
  refine bears.keeping (bears.held model s) ((bears.route _ _ _).bind fun pending t routed => ?_)
  refine drives_writeStore fun m present => bears.stored present fun mapsAside => ?_
  obtain ⟨same, aside⟩ := route_ok routed
  rw [same] at present
  exact aside m present mapsAside fun _ none => absurd none List.not_mem_nil

theorem assign (a : Accessor) (value : Json) : Drives R (Opening.assign a value) s := by
  refine .world_bind ?_
  split
  · cases value <;> exact bears.write _ _
  · exact drives_pure _

theorem push (binding : Ref .binding) (index : Nat) :
    Drives R (Opening.push binding index) s := by
  refine .world_bind ?_
  split
  · exact drives_pure _
  · split
    · split
      · exact .alter_bind (bears.reported _ s) (bears.assign _ _)
      · exact drives_pure _
    · exact drives_pure _

/-! ## Refreshing -/

theorem evaluate {model : Ref .model} {name : String} (getter : Getter σ) (capturing : Bool)
    (noted : R s (s.alter (.happen (.evaluated model name)))) :
    Drives R (evaluate model name getter capturing) s := by
  obtain ⟨client, ⟨given, ended⟩ | ⟨error, ended⟩⟩ := evaluate_ends model name getter capturing s
  all_goals
    have moved := trans_of R noted (bears.moved client _)
    rw [Drives, ended]
  · exact moved
  · exact trans_of R moved (bears.failed error _)

/-- A new value is adopted, and that is noted within a span of its own. -/
theorem publish {model : Ref .model} {m : Model σ} {p : Property σ} {value : Json}
    (present : s.world.models.get? model = some m) (found : m.property? p.name = some p)
    (scalar : m.IsRegular → value.isScalar = true) :
    Drives R (do
      alter fun w => { w with models := w.models.update model (.setValue p.name value) }
      Opening.publish model m.hub p value) s := by
  rw [Drives, Opening.result_publish present]
  exact trans_of R (bears.adopted present found scalar)
    (trans_of R (bears.reported _ _) (bears.spanned _ _))

/-- What a refresh does once its property is evaluated. -/
theorem renew {model : Ref .model} {m : Model σ} {p : Property σ} {t : State σ}
    {given : Json × Collector} (present : s.world.models.get? model = some m)
    (found : m.property? p.name = some p)
    (gave : (Run.evaluate model p.name p.getter false).result s = (.ok given, t)) :
    Drives R (do
      if isSettled p.value given.1 then pure .nothing
      else do
        alter fun w => { w with models := w.models.update model (.setValue p.name given.1) }
        Opening.publish model m.hub p given.1) t := by
  obtain ⟨world, -, answered, -⟩ := evaluate_ok gave
  split
  · exact drives_pure _
  · refine bears.publish ?_ found fun regular => ?_
    · rw [world]
      exact present
    · exact scalar_of_regular regular (Model.mem_of_property? found) present answered

theorem refresh {model : Ref .model} {name : String}
    (noted : ∀ t : State σ, R t (t.alter (.happen (.evaluated model name)))) :
    Drives R (Opening.refresh model name) s := by
  refine .world_bind ?_
  split
  · exact drives_pure _
  · rename_i m present
    split
    · exact drives_pure _
    · rename_i p found
      obtain rfl := Model.name_of_property? found
      exact bears.keeping (bears.held model s)
        ((bears.evaluate _ _ (noted _)).bind fun given t gave =>
          bears.renew (s := s.alter (.hold (.model model))) present found gave)

/-! ## Calls and listeners -/

/-- So an opening leads by the relation, if the binding of properties does and announcing and
typing do, which hold a document. -/
theorem opening {call : Call σ} {opening : Run σ Errand} (opens : call.opening = some opening)
    (bound : ∀ model definitions, call = .bindComputed model definitions →
      Drives R (Opening.bindComputed model definitions) s)
    (announced : ∀ document element, call = .announceEdit document element →
      R s (s.alter (.hold (.document document))))
    (typed : ∀ document element text, call = .typeInto document element text →
      Drives R (Opening.typeInto document element text) s) : Drives R opening s := by
  cases call with
  | trigger hub event =>
      cases opens
      exact bears.keeping (bears.triggered hub s) (drives_pure _)
  | write model attributes =>
      cases opens
      exact bears.write _ _
  | assign accessor value =>
      cases opens
      exact bears.assign _ _
  | bindComputed model definitions =>
      cases opens
      exact bound model definitions rfl
  | announceEdit document element =>
      cases opens
      exact bears.keeping (announced document element rfl) (drives_pure _)
  | typeInto document element text =>
      cases opens
      exact typed document element text rfl
  | _ => cases opens

/-- So does what a listener does that is not a client's, if an evaluation does and applying a
slot anew. -/
theorem reaction {reaction : Reaction} {event : Event} {opening : Run σ Errand}
    (opens : reaction.opening event = some opening)
    (noted : ∀ model name, reaction = .refresh model name →
      ∀ t : State σ, R t (t.alter (.happen (.evaluated model name))))
    (reapplied : ∀ binding index, reaction = .reapply binding index →
      Drives R (reapply binding index event.name) s) : Drives R opening s := by
  cases reaction with
  | client callback => cases opens
  | refresh model property =>
      cases opens
      exact bears.refresh (noted model property rfl)
  | reapply binding index =>
      cases opens
      exact (reapplied binding index rfl).bind fun _ _ _ => drives_pure _
  | push binding index =>
      cases opens
      exact bears.push _ _

end Bears

/-! ## Binding properties -/

/-- The relation holds besides around each change that the binding of properties makes to their
model. -/
structure BearsBinding (R : State σ → State σ → Prop) (model : Ref .model) : Prop
    extends Bears R where
  evaluated : ∀ (name : String) (s : State σ), R s (s.alter (.happen (.evaluated model name)))
  subscribed : ∀ (d : Dependency) (name : String) (s : State σ),
    R s (s.alter fun w => (w.subscribe d.hub d.event (.refresh model name)).2)
  changed : ∀ (f : Model σ → Model σ) (s : State σ),
    R s (s.alter fun w => { w with models := w.models.update model f })
  unbound : ∀ s : State σ, R s (s.alter (.unbindComputed model))

namespace BearsBinding

variable {R : State σ → State σ → Prop} [IsPreorder (State σ) R] {model : Ref .model}
  (bears : BearsBinding R model) {s : State σ}

include bears

theorem subscribeProperty (name : String) (dependencies : List Dependency) :
    Drives R (subscribeProperty model name dependencies) s := by
  induction dependencies generalizing s with
  | nil => exact drives_pure _
  | cons d rest ih =>
      exact Drives.bind (bears.subscribed d name s) fun _ _ _ => ih.bind fun _ _ _ => drives_pure _

theorem buildProperty (name : String) (definition : Definition σ) :
    Drives R (buildProperty model name definition) s := by
  unfold Run.buildProperty
  split
  · exact bears.failed _ s
  · refine (bears.evaluate _ _ (bears.evaluated name s)).bind fun given t _ => ?_
    refine (bears.subscribeProperty _ _).bind fun _ _ _ => ?_
    exact .alter_bind (bears.reported _ _) (drives_pure _)

theorem buildAll (definitions : List (String × Definition σ)) :
    Drives R (buildAll model definitions) s := by
  induction definitions generalizing s with
  | nil => exact drives_pure _
  | cons entry rest ih =>
      exact (bears.buildProperty _ _).bind fun _ t _ => .alter_bind (bears.changed _ t) ih

theorem buildAllOrNone (definitions : List (String × Definition σ)) :
    Drives R (buildAllOrNone model definitions) s := by
  refine (bears.buildAll _).attempt.bind fun ended t _ => ?_
  split
  · exact drives_pure _
  · exact .alter_bind (bears.unbound t) (bears.failed _ _)

theorem refuseCycle : Drives R (refuseCycle model) s := by
  refine .world_bind ?_
  split
  · exact drives_pure _
  · exact .alter_bind (bears.reported _ s) (.alter_bind (bears.unbound _) (bears.failed _ _))

theorem bindComputed (definitions : List (String × Definition σ)) :
    Drives R (Opening.bindComputed model definitions) s := by
  refine bears.keeping (bears.held model s) (.alter_bind (bears.unbound _) ?_)
  refine (bears.buildAllOrNone _).bind fun _ _ _ => bears.refuseCycle.bind fun _ t _ => ?_
  refine .world_bind ?_
  split
  · exact drives_pure _
  · rename_i m _
    refine drives_writeStore fun m' present => ?_
    have put : (t.alter fun w => { w with models := w.models.update model fun m' =>
        { m' with store := (m'.store.apply m.initialWrites).1 } }) = t.alter (World.put model _) :=
      State.alter_congr (World.update_eq_put present _)
    exact put ▸ bears.changed _ t

end BearsBinding

/-! ## Calls without an opening -/

/-- A call without an opening dispatches nothing. -/
theorem dispatches_of_quiet {call : Call σ} (quiet : call.opening = none) :
    call.dispatches = false := by
  cases call with
  | trigger hub event => cases quiet
  | write model attributes => cases quiet
  | assign accessor value => cases quiet
  | announceEdit document element => cases quiet
  | typeInto document element text => cases quiet
  | _ => rfl

/-- A call that dispatches nothing releases properties, or leaves them alone. -/
theorem perform_quiet_cases {fire : Fire σ} {s t : State σ} {call : Call σ} {answer : call.Answer}
    (quiet : call.opening = none) (performed : (perform fire call).result s = (.ok answer, t)) :
    (∃ model, call = .unbindComputed model ∧ t = s.alter (.unbindComputed model)) ∨
      s.world.Before t.world ∧ s.Apart t := by
  by_cases unbinds : ∃ model, call = .unbindComputed model
  · obtain ⟨model, rfl⟩ := unbinds
    cases performed
    exact Or.inl ⟨model, rfl, rfl⟩
  · have plain : call.computes = false := by
      cases call with
      | unbindComputed model => exact absurd ⟨model, rfl⟩ unbinds
      | bindComputed model definitions => cases quiet
      | _ => rfl
    have follows := apart_perform (dispatches_of_quiet quiet) plain _ _ performed nofun
    exact Or.inr ⟨follows.1, follows.2.1⟩

end LiveBinding.Run
