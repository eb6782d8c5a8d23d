/-
# LiveBinding.Proofs.Follower.Write -- writes take followers along

What a write stores puts a follower behind only where it announces a change that
the follower hears.  Announcing takes it along: the events are dispatched one
after another, and up to the first one that it hears the follower is behind with
an event still to come.
-/
import LiveBinding.Proofs.Follower.Basic

namespace LiveBinding

set_option autoImplicit false

variable {σ α : Type}

namespace Run

/-- Routing changes nothing but the client's state, and routes onto attributes that
are not computed, if that is what setters map onto. -/
theorem route_ok {model : Ref .model} {attributes routed pending : Attributes} {s t : State σ}
    (ended : (route model attributes routed).result s = (.ok pending, t)) :
    t.world = s.world ∧ ∀ m, s.world.models.get? model = some m → m.MapsAside →
      (∀ name ∈ Fields.keys routed, m.isComputed name = false) →
      ∀ name ∈ Fields.keys pending, m.isComputed name = false := by
  induction attributes generalizing routed s with
  | nil =>
      cases ended
      exact ⟨rfl, fun _ _ _ plain => plain⟩
  | cons entry rest ih =>
      obtain ⟨name, value⟩ := entry
      rw [route, result_world_bind] at ended
      split at ended
      · rename_i absent
        obtain ⟨same, plain⟩ := ih ended
        refine ⟨same, fun m present aside before => plain m present aside ?_⟩
        intro other among
        obtain ⟨found, listed, rfl⟩ := List.mem_map.mp among
        rcases Fields.mem_set listed with rfl | old
        · rw [present] at absent
          exact Option.isSome_eq_false_iff.mpr (Option.isNone_iff_eq_none.mpr absent)
        · exact before _ (List.mem_map_of_mem old)
      · rename_i property computed
        split at ended
        · cases ended
        · rename_i setter given
          obtain ⟨mapped, r, maps, ended⟩ := bind_ok ended
          rw [applySetter, result_bind_ok (result_get s), result_bind_ok (result_modify _ s)] at maps
          split at maps
          · rename_i answered
            cases maps
            obtain ⟨same, plain⟩ := ih ended
            refine ⟨same, fun m present aside before => plain m present aside ?_⟩
            intro other among
            rw [present] at computed
            rcases Fields.keys_setAll among with new | old
            · exact aside property (Model.mem_of_property? computed) setter given value
                s.client mapped _ (Prod.ext answered rfl) other new
            · exact before other old
          · cases maps

end Run

namespace Follower

variable {f : Follower σ} {P : World σ → Prop} {s : State σ}

/-! ## Steps that only mark -/

namespace Robust

theorem happened (robust : f.Robust) (happening : Happening) (w : World σ) :
    f.Keeps w (w.happen happening) :=
  robust.marked rfl rfl rfl rfl rfl rfl

theorem spanned (robust : f.Robust) (spans : List Span) (w : World σ) :
    f.Keeps w { w with spans := spans } :=
  robust.marked rfl rfl rfl rfl rfl rfl

end Robust

/-- Whatever it was before, a follower is in step when something failed or else. -/
theorem takes_fail (robust : f.Robust) (error : Error) (P Q : World σ → Prop) :
    Run.Follows (f.Takes P Q) (Run.fail error : Run σ α) s :=
  Run.follows_fail fun _ ready calm =>
    ⟨((robust.happened _ s.world).takes ready calm).1,
      fun sound => absurd (World.failed_happen error s.world) sound⟩

theorem takes_alter {g : World σ → World σ} (before : s.world.Before (g s.world))
    (keeps : f.Keeps s.world (g s.world)) :
    Run.Follows (f.Takes f.fresh f.fresh) (Run.alter g) s :=
  Run.follows_alter before keeps.takes

theorem takes_alter_or {g : World σ → World σ} {due : Prop} (before : s.world.Before (g s.world))
    (keeps : f.Keeps s.world (g s.world)) :
    Run.Follows (f.Takes (fun w => f.fresh w ∨ due) (fun w => f.fresh w ∨ due)) (Run.alter g) s := by
  refine Run.follows_alter before fun _ ready _ => ?_
  obtain ⟨there, still⟩ := keeps ready.1
  exact ⟨⟨there, ready.2⟩, fun _ => Or.imp_left still⟩

theorem takes_report (robust : f.Robust) (message : Message) :
    Run.Follows (f.Takes f.fresh f.fresh) (Run.alter (.report message)) s :=
  takes_alter (World.before_happen _ _) (robust.happened _ _)

/-- Work that brings a follower in step may do something last, and let go of what it held on
to meanwhile. -/
theorem takes_lastly (borrowed : List Handle) {work : Run σ α} {last : World σ → World σ}
    (takes : Run.Follows (f.Takes P f.fresh) work s) (quiet : ∀ w : World σ, (last w).journal = w.journal)
    (keeps : ∀ {held w}, f.ready (borrowed ++ held) w →
      f.ready held (last w) ∧ (f.fresh w → f.fresh (last w))) :
    Run.Follows (fun s t => ∀ ⦃held⦄, f.Ready (borrowed ++ held) s →
      ¬ s.world.Saw f.disturbs t.world →
        f.Ready held t ∧ (¬ s.world.Failed t.world → P s.world → f.fresh t.world))
      (work.lastly last) s := by
  intro ended u worked deep
  rw [Run.result_lastly] at worked
  cases worked
  obtain ⟨before, brings, noted⟩ := takes _ _ rfl deep
  have same : ∀ kind : Happening → Prop, s.world.Saw kind (last (work.result s).2.world) ↔
      s.world.Saw kind (work.result s).2.world := by
    intro kind
    rw [World.Saw, quiet]
    rfl
  refine ⟨before.trans (World.before_of_eq (quiet _)), fun held ready calm => ?_, ?_⟩
  · rw [State.alter_world, same] at calm
    obtain ⟨readyT, fresh⟩ := brings ready calm
    obtain ⟨there, still⟩ := keeps readyT.1
    refine ⟨⟨there, readyT.2⟩, fun sound start => still (fresh ?_ start)⟩
    rwa [World.Failed, State.alter_world, same] at sound
  · intro error failing
    rw [World.Failed, State.alter_world, same]
    exact noted error failing

/-- Work that brings a follower in step may hold on to something meanwhile. -/
theorem takes_keeping_of (robust : f.Robust) {handle : Handle} {work : Run σ α} {Q : World σ → Prop}
    (begins : ∀ {held}, f.ready held s.world → P s.world → Q (s.world.hold handle))
    (takes : Run.Follows (f.Takes Q f.fresh) work (s.alter (.hold handle))) :
    Run.Follows (f.Takes P f.fresh) (Run.keeping handle work) s := by
  refine Run.Follows.alter_bind (World.before_of_eq rfl) (takes_lastly [handle] takes
    (World.journal_release handle) (robust.released handle)) fun t brings held ready calm => ?_
  obtain ⟨readyT, fresh⟩ := brings ⟨(robust.held handle ready.1).1, ready.2⟩ calm
  exact ⟨readyT, fun sound start => fresh sound (begins ready.1 start)⟩

/-- Work keeps a follower in step while something is held on to. -/
theorem takes_keeping (robust : f.Robust) {handle : Handle} {work : Run σ α}
    (takes : Run.Follows (f.Takes f.fresh f.fresh) work (s.alter (.hold handle))) :
    Run.Follows (f.Takes f.fresh f.fresh) (Run.keeping handle work) s :=
  takes_keeping_of robust (fun ready => (robust.held handle ready).2) takes

/-! ## Announcing -/

theorem takes_announce {fire : Fire σ} (attentive : f.Attentive fire) (hub : Ref .hub)
    (changes : List (String × Json)) :
    Run.Follows (f.Takes (fun w => f.fresh w ∨ f.HearsOneOf hub changes) f.fresh)
      (Run.announce fire hub changes) s := by
  have each : ∀ (changes : List (String × Json)) (s : State σ),
      Run.Follows (f.Takes (fun w => f.fresh w ∨ f.HearsOneOf hub changes) f.fresh)
        (changes.forM fun change => fire (.event hub ⟨changeOf change.1, change.2⟩)) s := by
    intro changes
    induction changes with
    | nil =>
        intro s
        refine takes_mono ((f.onward f.fresh).follows_pure ()) ?_ fun _ => id
        rintro (fresh | ⟨_, none, _⟩)
        · exact fresh
        · cases none
    | cons change rest ih =>
        intro s
        -- after the first event it is in step, or what it hears comes later
        have first : Run.Follows (f.Takes
            (fun w => f.fresh w ∨ f.HearsOneOf hub (change :: rest))
            (fun w => f.fresh w ∨ f.HearsOneOf hub rest))
            (fire (.event hub ⟨changeOf change.1, change.2⟩)) s := by
          refine (attentive _ s).mono fun t _ takes _ ready calm => ?_
          obtain ⟨readyT, brings⟩ := takes ready calm
          refine ⟨readyT, fun sound start => ?_⟩
          rcases start with fresh | ⟨other, listed, hears⟩
          · exact Or.inl (brings sound (Or.inl fresh))
          · rcases List.mem_cons.mp listed with rfl | later
            · exact Or.inl (brings sound (Or.inr (hearsSignal_of_hears hears)))
            · exact Or.inr ⟨other, later, hears⟩
        exact takes_bind first fun _ t _ => ih t
  refine takes_bind (each changes s) fun _ t _ => ?_
  split
  · exact takes_mono (attentive _ t) Or.inl fun _ => id
  · exact (f.onward f.fresh).follows_pure _

/-! ## Storing -/

/-- A step after which the follower is in step or hears a change, and then the
changes are announced. -/
theorem takes_step {work : Run σ α} (hub : Ref .hub) (changes : List (String × Json))
    {g : World σ → World σ} (before : s.world.Before (g s.world))
    (step : ∀ {held}, f.ready held s.world → f.ready held (g s.world) ∧
      (P s.world → f.fresh (g s.world) ∨ f.HearsOneOf hub changes))
    (rest : Run.Follows (f.Takes (fun w => f.fresh w ∨ f.HearsOneOf hub changes) f.fresh) work
      (s.alter g)) :
    Run.Follows (f.Takes P f.fresh) (Run.alter g >>= fun _ => work) s := by
  have first : Run.Follows (f.Takes P fun w => f.fresh w ∨ f.HearsOneOf hub changes)
      (Run.alter g) s := by
    refine Run.follows_alter before fun _ ready _ => ?_
    obtain ⟨there, brings⟩ := step ready.1
    exact ⟨⟨there, ready.2⟩, fun _ => brings⟩
  refine takes_bind first fun _ t altered => ?_
  rw [Run.result_alter] at altered
  cases altered
  exact rest

/-- Entries that are not computed are written. -/
theorem takes_writeStore (robust : f.Robust) {fire : Fire σ} (attentive : f.Attentive fire)
    (model : Ref .model) (pending : Attributes)
    (plain : ∀ m, s.world.models.get? model = some m → m.MapsAside →
      ∀ name ∈ Fields.keys pending, m.isComputed name = false) :
    Run.Follows (f.Takes f.fresh f.fresh) (Run.writeStore fire model pending) s := by
  refine Run.Follows.world_bind ?_
  split
  · exact (f.onward f.fresh).follows_pure _
  · rename_i m present
    refine takes_step _ _ (World.before_of_eq rfl) ?_ (takes_announce attentive m.hub _)
    rw [World.update_eq_put present]
    exact robust.stored present (plain m present)

/-! ## Routing -/

theorem takes_client (f : Follower σ) (P : World σ → Prop) (g : State σ → σ) :
    Run.Follows (f.Takes P P) (modify fun s => { s with client := g s }) s :=
  Run.follows_modify (.refl _) fun _ ready _ => ⟨ready, fun _ => id⟩

theorem takes_applySetter (robust : f.Robust) (name : String) (setter : Setter σ) (value : Json) :
    Run.Follows (f.Takes f.fresh f.fresh) (Run.applySetter name setter value) s := by
  refine Run.Follows.get_bind ?_
  refine (f.onward f.fresh).bind (takes_client f f.fresh fun _ => _) fun _ t _ => ?_
  split
  · exact (f.onward f.fresh).follows_pure _
  · exact takes_fail robust _ _ _

theorem takes_route (robust : f.Robust) (model : Ref .model) (attributes routed : Attributes) :
    Run.Follows (f.Takes f.fresh f.fresh) (Run.route model attributes routed) s := by
  induction attributes generalizing routed s with
  | nil => exact (f.onward f.fresh).follows_pure _
  | cons entry rest ih =>
      obtain ⟨name, value⟩ := entry
      refine Run.Follows.world_bind ?_
      split
      · exact ih _
      · split
        · exact takes_fail robust _ _ _
        · exact (f.onward f.fresh).bind (takes_applySetter robust _ _ _) fun mapped t _ => ih _

theorem takes_write (robust : f.Robust) {fire : Fire σ} (attentive : f.Attentive fire)
    (model : Ref .model) (attributes : Attributes) :
    Run.Follows (f.Takes f.fresh f.fresh) (Run.write fire model attributes) s := by
  refine takes_keeping robust ?_
  refine takes_bind (takes_route robust model attributes []) fun pending t routed => ?_
  refine takes_writeStore robust attentive model pending fun m present aside => ?_
  obtain ⟨same, plain⟩ := Run.route_ok routed
  rw [same] at present
  exact plain m present aside nofun

theorem takes_assign (robust : f.Robust) {fire : Fire σ} (attentive : f.Attentive fire)
    (a : Accessor) (value : Json) :
    Run.Follows (f.Takes f.fresh f.fresh) (Run.assign fire a value) s := by
  refine Run.Follows.world_bind ?_
  split
  · split
    · exact takes_write robust attentive _ _
    · exact takes_write robust attentive _ _
  · exact (f.onward f.fresh).follows_pure _

end Follower

end LiveBinding
