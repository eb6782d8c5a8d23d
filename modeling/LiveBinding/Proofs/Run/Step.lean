/-
# LiveBinding.Proofs.Run.Step -- work goes by steps

All work that dispatches nothing changes the world by elementary steps, however it ends:
attaching, binding views, applying slots anew, and all that comes before dispatches
(`steps_perform`, `steps_opening`, `steps_reaction`).  What every step preserves is
therefore preserved by whatever a run does between two dispatches.
-/
import LiveBinding.Proofs.Run.Bears
import LiveBinding.Proofs.Run.Lodge
import LiveBinding.Proofs.Seat
import LiveBinding.Proofs.World.Lasts

namespace LiveBinding

set_option autoImplicit false

variable {σ α β : Type} {careful attaching : Prop}

/-- All that code captures shows of some model. -/
theorem Reading.mem_captured {sight : Sight} {owner : Ref .model} {capturing : Bool}
    {reading : Reading σ α} {client : σ} {captured : Collector} {d : Dependency}
    (among : d ∈ (reading.run sight owner capturing client captured).captured) :
    d ∈ captured ∨ ∃ model name seen, sight model name = some seen ∧ d = .ofRead seen.hub name := by
  induction reading generalizing client captured with
  | done => exact Or.inl among
  | fail => exact Or.inl among
  | read source recorded name next ih =>
      rw [run] at among
      rcases shown : sight (source.getD owner) name with _ | seen
      · rw [shown] at among
        exact ih _ among
      · rw [shown] at among
        rcases ih _ among with old | new
        · split at old
          · rcases Collector.mem_record.mp old with rfl | older
            · exact Or.inr ⟨_, name, seen, shown, rfl⟩
            · exact Or.inl older
          · exact Or.inl old
        · exact Or.inr new
  | capturing next ih => exact ih _ among
  | look next ih => exact ih _ among
  | change f next ih => exact ih among

/-- Each dependency is captured once. -/
theorem Reading.nodup_captured {sight : Sight} {owner : Ref .model} {capturing : Bool}
    {reading : Reading σ α} {client : σ} {captured : Collector} (distinct : captured.Nodup) :
    (reading.run sight owner capturing client captured).captured.Nodup := by
  induction reading generalizing client captured with
  | done => exact distinct
  | fail => exact distinct
  | read source recorded name next ih =>
      rw [run]
      split
      · refine ih _ ?_
        split
        · exact Collector.nodup_record distinct
        · exact distinct
      · exact ih _ distinct
  | capturing next ih => exact ih _ distinct
  | look next ih => exact ih _ distinct
  | change f next ih => exact ih distinct

namespace Run

/-- From here the work goes by steps. -/
abbrev Treads (careful attaching : Prop) : Run σ α → State σ → Prop :=
  Leads (World.Steps careful attaching)

variable {s : State σ}

theorem treads_fail (error : Error) : Treads careful attaching (fail error : Run σ α) s :=
  leads_fail (World.step_happen rfl _).steps

theorem treads_report (message : Message) : Treads careful attaching (alter (.report message)) s :=
  leads_alter (World.step_report _ _).steps

theorem step_closing (closing : Closing) (w : World σ) : w.Step careful attaching (closing.apply w) := by
  cases closing with
  | release handle => exact .release w handle
  | resetSpans spans => exact World.step_spans spans w

theorem treads_keeping {opening : Run σ Errand} {handle : Handle}
    (named : careful → s.world.IsThere handle)
    (treads : Treads careful attaching opening (s.alter (.hold handle))) :
    Treads careful attaching (Opening.keeping handle opening) s :=
  leads_keeping (World.Step.hold s.world handle named).steps
    (fun w => (World.Step.release w handle).steps) treads

/-- Openings go by steps. -/
theorem bears_steps :
    Bears (State.Through (σ := σ) (World.Steps careful attaching)) where
  failed _ s := (World.step_happen rfl s.world).steps
  reported message s := (World.step_report message s.world).steps
  held model s := (World.Step.hold s.world (.model model) fun _ => trivial).steps
  triggered hub s := (World.Step.hold s.world (.hub hub) fun _ => trivial).steps
  closed closing s := (step_closing closing s.world).steps
  moved _ s := .refl s.world
  stored {s model m _} present _ :=
    (World.Step.put s.world model present (Model.sameShape_store _ m)).steps
  adopted {s model m p value} present _ _ :=
    (World.Step.put s.world model present (Model.sameShape_adopt p value m)).steps

/-! ## Bindings -/

theorem treads_edit {document : Ref .document} {f : Document → Document}
    (fewer : ∀ d : Document, d.Fewer (f d)) : Treads careful attaching (alter (.editDocument document f)) s :=
  (World.Step.edit _ document f fewer).steps

theorem treads_applyOperator (document : Ref .document) (element : Ref .element)
    (operator : Operator) (value : Json) :
    Treads careful attaching (applyOperator document element operator value) s :=
  treads_edit fun d => Document.fewer_amend _ _ d

theorem treads_compileOperator (b : Binding) (operator : String) :
    Treads careful attaching (compileOperator b operator) s := by
  refine Leads.world_bind ?_
  split
  · exact leads_pure _
  · exact treads_fail _

theorem treads_applySlots {binding : Ref .binding} {b : Binding} (editable : Bool)
    (operators : List (String × Operator)) (present : s.world.bindings.get? binding = some b)
    (live : b.disposed = false) : Treads careful True (applySlots binding editable operators) s := by
  induction operators generalizing s b with
  | nil => exact leads_pure _
  | cons entry rest ih =>
      obtain ⟨name, operator⟩ := entry
      rcases compiled : b.declaration.compileOperator name b.env s.world.sight with e | c
      · have failed := result_applySlot_error editable operator present compiled
        rw [applySlots, Treads, Leads, result_bind_error failed]
        exact (World.step_happen rfl _).steps
      · have applied := result_applySlot editable operator present compiled
        obtain ⟨subs, ids, there, -⟩ := World.row_fit editable name operator c present
        rw [applySlots, Treads, Leads, result_bind_ok applied]
        exact (World.Step.fit _ trivial present live editable name operator c).steps.trans
          (ih (s := s.alter (.fit binding b editable name operator c)) there live)

theorem treads_attach (document : Ref .document) (element : Ref .element) (env : Environment)
    (editable : Bool) (resolved : Resolved)
    (named : careful → s.world.IsThere (.document document)) :
    Treads careful True (attach document element env editable resolved) s := by
  refine (leads_produce (World.Step.start _ trivial _ _ _ _ named).steps).bind fun binding t produced => ?_
  cases produced
  refine (treads_applySlots editable resolved.operators
    (Table.get?_insert_fresh _ _) rfl).attempt.bind fun ended t _ => ?_
  split
  · exact leads_pure _
  · exact (leads_alter (World.Step.dispose _ _).steps).bind fun _ _ _ => treads_fail _

theorem treads_reapply (binding : Ref .binding) (index : Nat) (event : String) :
    Treads careful attaching (reapply binding index event) s := by
  refine Leads.world_bind ?_
  split
  · exact leads_pure _
  · split
    · exact leads_pure _
    · rename_i b _ _ slot _
      split
      · refine Leads.within (fun w spans => (World.step_spans spans w).steps) ?_
        have recompiled : Treads careful attaching (recompile binding b index slot)
            (s.alter fun w => { w with spans := s.world.spans ++ [(Message.operatorReapplied
              b.selector slot.name event slot.dirty).span "operator_reapply"] }) := by
          unfold recompile
          split
          · refine (treads_compileOperator _ _).bind fun _ t _ => ?_
            refine Leads.alter_bind (World.Step.amend _ _ _ fun b => ?_).steps (leads_pure _)
            rw [Binding.wiring, Binding.wiring, Binding.modifySlot]
            congr 1
            exact List.ext_getElem? fun i => by
              rw [List.getElem?_map, List.getElem?_map, List.getElem?_modify]
              rcases b.slots[i]? with _ | slot
              · rfl
              · simp only [Option.map_some]
                split <;> rfl
          · exact leads_pure _
        refine recompiled.bind fun _ _ _ => Leads.world_bind ?_
        exact (treads_applyOperator _ _ _ _).bind fun _ _ _ => treads_report _
      · exact leads_pure _

/-! ## Views -/

theorem treads_ofExcept (outcome : Except Error α) :
    Treads careful attaching (ofExcept outcome : Run σ α) s := by
  cases outcome with
  | ok value => exact leads_pure value
  | error error => exact treads_fail error

theorem treads_resolveAll (v : View) (env : Environment) (declarations : List (String × String)) :
    Treads careful attaching (resolveAll v env declarations) s := by
  induction declarations generalizing s with
  | nil => exact leads_pure _
  | cons entry rest ih =>
      obtain ⟨selector, text⟩ := entry
      refine Leads.world_bind ?_
      split
      · exact (treads_report _).bind fun _ _ _ => ih
      · refine (treads_ofExcept _).bind fun _ _ _ => ih.bind fun _ _ _ => leads_pure _

theorem treads_attachAll (v : View) (env : Environment)
    (resolved : List (Ref .element × Resolved))
    (named : careful → s.world.IsThere (.document v.document)) :
    Treads careful True (attachAll v env resolved) s := by
  induction resolved generalizing s with
  | nil => exact leads_pure _
  | cons entry rest ih =>
      refine Leads.world_bind ?_
      refine (treads_attach _ _ _ _ _ named).bind fun first t attached => ?_
      have lodges := (attach_lodges attached).1
      have still : careful → t.world.IsThere (.document v.document) := fun asked =>
        (World.keepsDocument_of_same lodges.held lodges.views v.document).trans (named asked)
      refine (ih still).attempt.bind fun ended _ _ => ?_
      split
      · exact leads_pure _
      · exact (leads_alter (World.Step.dispose _ _).steps).bind fun _ _ _ => treads_fail _

theorem treads_bindView (view : Ref .view) : Treads careful True (bindView view) s := by
  refine Leads.alter_bind (World.steps_unbindView view s.world) (Leads.world_bind ?_)
  split
  · exact leads_pure _
  · rename_i v present
    split
    · exact leads_pure _
    · refine (treads_resolveAll _ _ _).bind fun found t resolved => ?_
      have lodges : World.Lodges [] (s.alter (.unbindView view)).world t.world := by
        have leads := lodges_resolveAll (s := s.alter (.unbindView view)) v
          (environmentOf (s.alter (.unbindView view)).world v.model) v.declarations
        rwa [Leads, resolved] at leads
      have named : careful → t.world.IsThere (.document v.document) := fun _ =>
        World.keepsDocument_iff.mpr (Or.inr ⟨_, _, by rw [lodges.views]; exact present, rfl⟩)
      refine (treads_attachAll _ _ _ named).bind fun bindings _ _ => ?_
      refine (treads_report _).bind fun _ _ _ => ?_
      exact leads_alter (World.Step.rebind _ trivial view bindings).steps

/-! ## Computed properties -/

/-- A definition that can be evaluated is installed, and noted; one that cannot leaves
notes only. -/
theorem buildProperty_ends_or (model : Ref .model) (name : String) (definition : Definition σ)
    (s : State σ) :
    (∃ error added client, (∀ entry ∈ added, Happening.call? entry.happening = none) ∧
      (buildProperty model name definition).result s = (.error (.failed error),
        ⟨{ s.world with journal := s.world.journal ++ added }, s.callbacks, client⟩)) ∨
    ∃ getter value captured client, definition.getter = some getter ∧
      (∃ client', (getter.run s.world.sight model true client' .empty).captured = captured) ∧
      (do
        let property ← buildProperty model name definition
        alter fun w =>
          { w with models := w.models.update model fun m =>
              { m with properties := m.properties ++ [property] } }).result s =
        (.ok (), ⟨((s.world.happen (.evaluated model name)).install model
          ⟨name, getter, definition.setter, definition.isVirtual, value,
            Collector.recordAll definition.events captured, []⟩).report
          (.computedBound name (Collector.events (Collector.recordAll definition.events captured))
            definition.isVirtual), s.callbacks, client⟩) := by
  unfold buildProperty
  rcases definition.getter with _ | getter
  · refine Or.inl ⟨_, [⟨.failed (.noGetter name), s.world.spans⟩], s.client, ?_, rfl⟩
    exact fun entry listed => by rw [List.mem_singleton.mp listed]; rfl
  · obtain ⟨client, ⟨given, ended⟩ | ⟨error, ended⟩⟩ := evaluate_ends model name getter true s
    · refine Or.inr ⟨getter, given.1, given.2, client, rfl,
        ⟨s.client, (evaluate_ok ended).2.2.2⟩, ?_⟩
      simp only [bind_assoc]
      rw [result_bind_ok ended, result_bind_ok (result_subscribeProperty _ _ _)]
      rfl
    · refine Or.inl ⟨error, [⟨.evaluated model name, s.world.spans⟩,
        ⟨.failed error, s.world.spans⟩], client, ?_, ?_⟩
      · intro entry listed
        rcases List.mem_cons.mp listed with rfl | last
        · rfl
        · rw [List.mem_singleton.mp last]
          rfl
      · rw [result_bind_error ended]
        simp [World.happen]

end Run

namespace World

/-- The model is there, and so is every hub that properties of it would depend on. -/
structure Offers (w : World σ) (model : Ref .model) (definitions : List (String × Definition σ)) :
    Prop where
  there : (w.models.get? model).isSome
  events : ∀ entry ∈ definitions, ∀ d ∈ entry.2.events, (w.hubs.get? d.hub).isSome

variable {v w : World σ} {model : Ref .model} {definitions : List (String × Definition σ)}

theorem Offers.tail {entry : String × Definition σ} (offers : w.Offers model (entry :: definitions)) :
    w.Offers model definitions :=
  ⟨offers.there, fun other listed => offers.events other (List.mem_cons_of_mem _ listed)⟩

theorem Offers.step (offers : v.Offers model definitions) (step : v.Step careful attaching w)
    (there : (w.models.get? model).isSome) : w.Offers model definitions :=
  ⟨there, fun entry listed d among =>
    (lasts_step step).exists_ (offers.events entry listed d among)⟩

theorem isSome_install {p : Property σ} (there : (w.models.get? model).isSome) :
    ((w.install model p).models.get? model).isSome := by
  rw [install]
  dsimp only
  rw [(tables_subscribeAll _ _ _ _).1, Table.get?_update_self, Option.isSome_map]
  exact there

theorem isSome_unbindComputed (there : (w.models.get? model).isSome) :
    ((w.unbindComputed model).models.get? model).isSome := by
  obtain ⟨m, present⟩ := Option.isSome_iff_exists.mp there
  obtain ⟨m', present', -⟩ := present_unbindComputed present
  rw [present']
  rfl

end World

/-- A call that names only what is there. -/
def Call.IsCareful (w : World σ) : Call σ → Prop
  | .hold handle => w.IsThere handle
  | .openView view => w.IsThere (.document view.document)
  | .announceEdit document _ => w.IsThere (.document document)
  | .typeInto document _ _ => w.IsThere (.document document)
  | .attach document _ _ _ _ => w.IsThere (.document document)
  | .bindComputed model definitions => w.Offers model definitions
  | _ => True

instance (w : World σ) (handle : Handle) : Decidable (w.IsThere handle) :=
  match handle with
  | .document _ => inferInstanceAs (Decidable (_ = true))
  | .hub _ => inferInstanceAs (Decidable True)
  | .model _ => inferInstanceAs (Decidable True)

instance (w : World σ) (model : Ref .model) (definitions : List (String × Definition σ)) :
    Decidable (w.Offers model definitions) :=
  decidable_of_iff
    ((w.models.get? model).isSome ∧ ∀ entry ∈ definitions, ∀ d ∈ entry.2.events,
      (w.hubs.get? d.hub).isSome)
    ⟨fun offers => ⟨offers.1, offers.2⟩, fun offers => ⟨offers.there, offers.events⟩⟩

instance (w : World σ) (call : Call σ) : Decidable (call.IsCareful w) := by
  unfold Call.IsCareful
  split <;> infer_instance

namespace Run

variable {s : State σ} {model : Ref .model} {definitions : List (String × Definition σ)}

theorem treads_buildAll (named : careful → s.world.Announced ∧ s.world.Offers model definitions) :
    Treads careful attaching (buildAll model definitions) s := by
  induction definitions generalizing s with
  | nil => exact leads_pure _
  | cons entry rest ih =>
      obtain ⟨name, definition⟩ := entry
      rw [buildAll, ← bind_assoc]
      rcases buildProperty_ends_or model name definition s with
        ⟨error, added, client, plain, failed⟩ | ⟨getter, value, captured, client, given, ⟨client', reads⟩, built⟩
      · rw [Treads, Leads, result_bind_error (result_bind_error failed)]
        exact (World.step_journal plain s.world).steps
      · have noted : s.world.Step careful attaching (s.world.happen (.evaluated model name)) :=
          World.step_happen rfl _
        have installed : (s.world.happen (.evaluated model name)).Step careful attaching
            ((s.world.happen (.evaluated model name)).install model
              ⟨name, getter, definition.setter, definition.isVirtual, value,
                Collector.recordAll definition.events captured, []⟩) := by
          refine .install _ _ _ (Collector.nodup_recordAll ?_) (fun asked => (named asked).2.there) ?_
          · rw [← reads]
            exact Reading.nodup_captured List.nodup_nil
          · intro asked d among
            rcases Collector.mem_recordAll.mp among with explicit | read
            · exact (named asked).2.events _ List.mem_cons_self d explicit
            · rw [← reads] at read
              rcases Reading.mem_captured read with none | ⟨other, asked', seen, shown, rfl⟩
              · cases none
              · exact (named asked).1.sight shown
        have reported : World.Step careful attaching _ _ := World.step_report
          (.computedBound name
          (Collector.events (Collector.recordAll definition.events captured)) definition.isVirtual)
          ((s.world.happen (.evaluated model name)).install model
            ⟨name, getter, definition.setter, definition.isVirtual, value,
              Collector.recordAll definition.events captured, []⟩)
        have steps := (noted.steps.trans installed.steps).trans reported.steps
        have offers := fun asked : careful =>
          And.intro (steps.announced (named asked).1)
            ((((named asked).2.tail.step noted (named asked).2.there).step installed
              (World.isSome_install (named asked).2.there)).step reported
              (World.isSome_install (named asked).2.there))
        rw [Treads, Leads, result_bind_ok built]
        exact steps.trans (ih (s := ⟨_, s.callbacks, client⟩) offers)

theorem treads_buildAllOrNone
    (named : careful → s.world.Announced ∧ s.world.Offers model definitions) :
    Treads careful attaching (buildAllOrNone model definitions) s := by
  refine (treads_buildAll named).attempt.bind fun ended t _ => ?_
  split
  · exact leads_pure _
  · exact (leads_alter (World.Step.unbindComputed _ _).steps).bind fun _ _ _ => treads_fail _

theorem treads_refuseCycle (model : Ref .model) : Treads careful attaching (refuseCycle model) s := by
  refine Leads.world_bind ?_
  split
  · exact leads_pure _
  · exact (treads_report _).bind fun _ _ _ =>
      (leads_alter (World.Step.unbindComputed _ _).steps).bind fun _ _ _ => treads_fail _

/-- Properties are bound to a model that has none. -/
theorem treads_bindAnew (named : careful → s.world.Announced ∧ s.world.Offers model definitions) :
    Treads careful attaching (do
      buildAllOrNone model definitions
      refuseCycle model
      match (← world).models.get? model with
      | none => pure .nothing
      | some m => Opening.writeStore model m.initialWrites) s := by
  refine (treads_buildAllOrNone named).bind fun _ _ _ => ?_
  refine (treads_refuseCycle model).bind fun _ _ _ => Leads.world_bind ?_
  split
  · exact leads_pure _
  · exact drives_writeStore (R := State.Through _) fun m present =>
      (World.Step.put _ model present (Model.sameShape_store _ m)).steps

theorem treads_bindComputed
    (named : careful → s.world.Announced ∧ s.world.Offers model definitions) :
    Treads careful attaching (Opening.bindComputed model definitions) s := by
  have held : s.world.Step careful attaching (s.world.hold (.model model)) :=
    .hold _ _ fun _ => trivial
  have unbound : (s.world.hold (.model model)).Step careful attaching
      ((s.world.hold (.model model)).unbindComputed model) := .unbindComputed _ _
  refine treads_keeping (fun _ => trivial) (.alter_bind unbound.steps (treads_bindAnew fun asked => ?_))
  obtain ⟨announced, offers⟩ := named asked
  exact ⟨(held.steps.trans unbound.steps).announced announced,
    (offers.step held offers.there).step unbound (World.isSome_unbindComputed offers.there)⟩

/-! ## Calls and reactions -/

/-- What comes before the dispatches of a call goes by steps. -/
theorem steps_opening {call : Call σ} {opening : Run σ Errand} (opens : call.opening = some opening)
    (named : careful → s.world.Announced ∧ call.IsCareful s.world) :
    Treads careful attaching opening s := by
  refine bears_steps.opening opens ?_ ?_ ?_
  · rintro model definitions rfl
    exact treads_bindComputed named
  · rintro document element rfl
    exact (World.Step.hold _ (.document document) fun asked => (named asked).2).steps
  · rintro document element text rfl
    exact Leads.alter_bind (World.Step.edit _ _ _ fun d => Document.fewer_amend _ _ d).steps
      (treads_keeping (fun asked => (named asked).2) (leads_pure _))

/-- So does what comes before the dispatches of a listener. -/
theorem steps_reaction {reaction : Reaction} {event : Event} {opening : Run σ Errand}
    (opens : reaction.opening event = some opening) : Treads careful attaching opening s :=
  bears_steps.reaction opens (fun _ _ _ t => (World.step_happen rfl t.world).steps)
    fun _ _ _ => treads_reapply _ _ _

/-- And so does a call that dispatches nothing, unless a client cancels by it. -/
theorem steps_perform (fire : Fire σ) {call : Call σ} (quiet : call.opening = none)
    (other : ∀ subscription, call ≠ .cancel subscription)
    (named : careful → call.IsCareful s.world) : Treads careful True (perform fire call) s := by
  cases call with
  | openHub => exact leads_produce (World.Step.openHub _).steps
  | openModel attributes => exact leads_produce (World.Step.openModel _ attributes).steps
  | openDocument => exact leads_produce (World.Step.openDocument _).steps
  | hold handle => exact leads_alter (World.Step.hold _ handle named).steps
  | release handle => exact leads_alter (World.Step.release _ handle).steps
  | cancel subscription => exact absurd rfl (other subscription)
  | unbindComputed model => exact leads_alter (World.Step.unbindComputed _ model).steps
  | edit document edit => exact treads_edit (Document.fewer_apply edit)
  | mount document parent fixtures => exact treads_edit (Document.fewer_mountAll parent fixtures)
  | operate document element operator value => exact treads_applyOperator _ _ _ _
  | attach document element env editable resolved =>
      exact (treads_attach _ _ _ _ _ named).attempt
  | dispose binding => exact leads_alter (World.Step.dispose _ binding).steps
  | openView view => exact leads_produce (World.Step.openView _ trivial view named).steps
  | bindView view => exact (treads_bindView view).attempt
  | unbindView view => exact leads_alter (World.steps_unbindView view _)
  | removeView view => exact leads_alter (World.steps_removeView view _)
  | dropView view => exact leads_alter (World.steps_dropView view _)
  | report message => exact treads_report message
  | trigger hub event => cases quiet
  | write model attributes => cases quiet
  | assign accessor value => cases quiet
  | bindComputed model definitions => cases quiet
  | announceEdit document element => cases quiet
  | typeInto document element text => cases quiet

end Run

/-! ## Trails -/

/-- A point at which the world is only looked at: a call or a dispatch is about to begin, or
a call has returned whose dispatches are over. -/
def Point.IsMark : Point σ → Prop
  | .making _ => True
  | .made call _ => call.opening ≠ none
  | .dispatching _ => True
  | _ => False

def Moment.IsCareful (m : Moment σ) : Prop :=
  match m.point with
  | .making call => call.IsCareful m.state.world
  | _ => True

instance (m : Moment σ) : Decidable m.IsCareful := by
  unfold Moment.IsCareful
  split <;> infer_instance

section Invariant

variable (careful) {start : State σ} (holds : List (Moment σ) → State σ → Prop)
  (began : holds [] start)
  (stepped : ∀ {past : List (Moment σ)} {s t : State σ}, s.world.Steps careful False t.world →
    holds past s → holds past t)
  (marked : ∀ {past : List (Moment σ)} {s : State σ} {point : Point σ}, point.IsMark →
    holds past s → holds (past ++ [⟨point, s⟩]) s)
  (subscribed : ∀ {past : List (Moment σ)} {s : State σ} (hub : Ref .hub) (event : String)
    (callback : Event → Program σ), holds past s →
    holds (past ++ [⟨.subscribed (s.subscribe hub event callback).1 s.callbacks.length,
      (s.subscribe hub event callback).2⟩]) (s.subscribe hub event callback).2)
  (cancelled : ∀ {past : List (Moment σ)} {s : State σ} (subscription : Subscription),
    holds past s → holds (past ++ [⟨.made (.cancel subscription) (),
      s.alter (.withdraw subscription)⟩]) (s.alter (.withdraw subscription)))
  (answered : ∀ {past : List (Moment σ)} {s t : State σ} {call : Call σ} {fire : Fire σ}
    {answer : call.Answer}, call.opening = none → (∀ subscription, call ≠ .cancel subscription) →
    (Run.perform fire call).result s = (.ok answer, t) → s.world.Steps careful True t.world →
    holds past s → holds (past ++ [⟨.made call answer, t⟩]) t)
  (called : ∀ {past : List (Moment σ)} {s first : State σ} {signal : Signal} {id : Nat}
    {reaction : Reaction}, ⟨.dispatching signal, first⟩ ∈ past →
    (id, reaction) ∈ Run.listeners first.world signal →
    Run.isRegistered s.world signal id = true → holds past s →
    holds (past ++ [⟨.calling signal first.world.journal.length id reaction,
        s.alter (.happen (.called first.world.journal.length id))⟩])
      (s.alter (.happen (.called first.world.journal.length id))))

namespace Trail

include began stepped marked subscribed cancelled answered called in
/-- What holds at the beginning of a run, and is preserved by steps of the world, by
passing moments and by what clients subscribe and cancel, holds wherever the run gets. -/
theorem invariant_of {past : List (Moment σ)} {awaited : Option (Call σ)} {s : State σ}
    (trail : Trail start past awaited s)
    (named : ∀ m ∈ past, careful → m.state.world.Announced ∧ m.IsCareful) : holds past s := by
  have shorter : ∀ {past : List (Moment σ)} {m : Moment σ},
      (∀ m' ∈ past ++ [m], careful → m'.state.world.Announced ∧ m'.IsCareful) →
      ∀ m' ∈ past, careful → m'.state.world.Announced ∧ m'.IsCareful :=
    fun named m' listed => named m' (List.mem_append_left _ listed)
  have last : ∀ {past : List (Moment σ)} {m : Moment σ},
      (∀ m' ∈ past ++ [m], careful → m'.state.world.Announced ∧ m'.IsCareful) →
      careful → m.state.world.Announced ∧ m.IsCareful :=
    fun named => named _ (List.mem_append_right _ (List.mem_singleton.mpr rfl))
  induction trail with
  | start => exact began
  | noted _ happening plain ih =>
      refine stepped (World.step_happen ?_ _).steps (ih named)
      cases happening with
      | called began id => exact absurd rfl (plain began id)
      | _ => rfl
  | @changed _ s _ f ih => exact stepped (s := s) (.refl s.world) (ih named)
  | @listened _ s _ document element callback ih =>
      exact stepped (World.Step.listen s.world document element s.callbacks.length).steps (ih named)
  | subscribed _ hub event callback ih => exact subscribed hub event callback (ih (shorter named))
  | making _ call ih => exact marked trivial (ih (shorter named))
  | @answered _ s t call fire answer trail quiet performed ih =>
      obtain ⟨_, rfl, -⟩ := trail.awaits
      by_cases cancels : ∃ subscription, call = .cancel subscription
      · obtain ⟨subscription, rfl⟩ := cancels
        cases performed
        exact cancelled subscription (ih (shorter named))
      · have other := fun subscription same => cancels ⟨subscription, same⟩
        have steps := Run.steps_perform fire quiet other
          (fun asked => (last (shorter named) asked).2)
        rw [Run.Treads, Run.Leads, performed] at steps
        exact answered quiet other performed steps (ih (shorter named))
  | opened trail opens worked ih =>
      obtain ⟨_, rfl, -⟩ := trail.awaits
      have steps : Run.Treads careful False _ _ := Run.steps_opening opens (last named)
      rw [Run.Treads, Run.Leads, worked] at steps
      exact stepped steps (ih named)
  | made _ opens answer ih =>
      exact marked (by rw [Point.IsMark, opens]; exact Option.some_ne_none _) (ih (shorter named))
  | dispatching _ signal ih => exact marked trivial (ih (shorter named))
  | calling _ dispatched listed registered ih =>
      exact called dispatched listed registered (ih (shorter named))
  | @reacted _ s _ _ _ _ _ _ opens worked ih =>
      have steps : Run.Treads careful False _ s := Run.steps_reaction opens
      rw [Run.Treads, Run.Leads, worked] at steps
      exact stepped steps (ih named)
  | closed _ closing ih => exact stepped (Run.step_closing closing _).steps (ih named)

/-- Models announce their changes on hubs that are there, wherever the run gets. -/
theorem announced (bare : start.world.Announced) {past : List (Moment σ)}
    {awaited : Option (Call σ)} {s : State σ} (trail : Trail start past awaited s) :
    s.world.Announced := by
  have same : ∀ {v w : World σ}, Lasts v.hubs w.hubs → w.models = v.models → v.Announced →
      w.Announced := fun lasts models announced =>
    announced.of_rows lasts fun model m present => ⟨m, models ▸ present, rfl⟩
  refine invariant_of False (fun _ s => s.world.Announced) bare
    (fun steps => steps.announced) (fun _ => id) (fun {_ s} hub event callback => ?_)
    (fun {_ s} subscription => ?_) (fun _ _ _ steps => steps.announced) (fun _ _ _ => ?_) trail
    (fun _ _ => False.elim)
  · exact same (World.lasts_subscribe hub event _ s.world)
      (World.tables_subscribe hub event _ s.world).1
  · exact same (World.lasts_withdraw subscription s.world) rfl
  · exact same (.refl _) rfl

include began stepped marked subscribed cancelled answered called in
/-- So it is of a run in which clients name only what is there. -/
theorem invariant (bare : careful → start.world.Announced) {past : List (Moment σ)}
    {awaited : Option (Call σ)} {s : State σ} (trail : Trail start past awaited s)
    (named : ∀ m ∈ past, careful → m.IsCareful) : holds past s := by
  refine invariant_of careful holds began stepped marked subscribed cancelled answered called trail
    fun m listed asked => ⟨?_, named m listed asked⟩
  obtain ⟨before, after, split⟩ := List.append_of_mem listed
  exact announced (bare asked) (trail.upTo split)

end Trail

end Invariant

end LiveBinding
