/-
# LiveBinding.Proofs.Follower.Sound -- every world that comes about is sound

What everything that runs keeps is a follower: it is ready when it holds, and is never
behind (`Follower.Invariant`).  Soundness is of that kind.  So whatever a client does,
and whether or not it fails, it leaves a sound world sound (`sound_of_reachable`).
-/
import LiveBinding.Proofs.Follower.Dispatch

namespace LiveBinding

set_option autoImplicit false

variable {σ α : Type}

def Call.computes : Call σ → Bool
  | .bindComputed .. => true
  | .unbindComputed .. => true
  | _ => false

namespace Run

variable {s : State σ} {fire : Fire σ}

theorem apart_produce {f : World σ → α × World σ} (before : s.world.Before (f s.world).2)
    (apart : s.world.Apart (f s.world).2) : Follows State.Apart (produce f) s :=
  follows_produce before ⟨apart, rfl⟩

theorem apart_change {f : World σ → World σ} (before : s.world.Before (f s.world))
    (apart : s.world.Apart (f s.world)) : Follows State.Apart (alter f) s :=
  follows_alter before (apart_alter apart)

/-- A call that neither dispatches nor has to do with computed properties leaves
models alone. -/
theorem apart_perform {call : Call σ} (silent : call.dispatches = false)
    (plain : call.computes = false) : Follows State.Apart (perform fire call) s := by
  have same : ∀ {v w : World σ}, w.journal = v.journal → v.Before w := World.before_of_eq
  cases call with
  | openHub => exact apart_produce (same rfl) (World.apart_openHub _)
  | openModel attributes => exact apart_produce (same rfl) (World.apart_openModel _ _)
  | openDocument => exact apart_produce (same rfl) (World.apart_openDocument _)
  | hold handle => exact apart_change (same rfl) (World.apart_hold _ _)
  | release handle =>
      exact apart_change (same (World.journal_release _ _)) (World.apart_release _ _)
  | cancel subscription => exact apart_change (same rfl) (World.apart_withdraw _ _)
  | edit document edit => exact apart_change (same rfl) (World.apart_editDocument _ _ _)
  | mount document parent fixtures =>
      exact apart_change (same rfl) (World.apart_editDocument _ _ _)
  | operate document element operator value => exact apart_applyOperator _ _ _ _
  | attach document element env editable resolved => exact (apart_attach _ _ _ _ _).attempt
  | dispose binding => exact apart_dispose binding
  | openView view => exact apart_produce (same rfl) (World.apart_openView _ _)
  | bindView view => exact (apart_bindView view).attempt
  | unbindView view =>
      exact apart_change (World.before_unbindView _ _) (World.apart_unbindView _ _)
  | removeView view =>
      exact apart_change (World.before_removeView _ _) (World.apart_removeView _ _)
  | dropView view => exact apart_change (World.before_dropView _ _) (World.apart_dropView _ _)
  | report message => exact apart_report message
  | bindComputed model definitions => cases plain
  | unbindComputed model => cases plain
  | _ => cases silent

end Run

/-! ## Invariants -/

/-- What abides whatever runs, as long as no computed properties are bound. -/
structure World.Abiding (kept : World σ → Prop) : Prop where
  apart : ∀ {v w : World σ}, v.Apart w → kept v → kept w
  marked : ∀ {v w : World σ}, w.hubs = v.hubs → w.models = v.models → w.bindings = v.bindings →
    kept v → kept w
  stored : ∀ {w model m pending}, w.models.get? model = some m →
    (m.MapsAside → ∀ name ∈ Fields.keys pending, m.isComputed name = false) → kept w →
    kept (w.put model { m with store := (m.store.apply pending).1 })
  adopted : ∀ {w model m p value}, w.models.get? model = some m → m.property? p.name = some p →
    (m.IsRegular → value.isScalar = true) → kept w → kept (w.put model (m.adopt p value).1)
  unbound : ∀ model w, kept w → kept (w.unbindComputed model)

namespace World.Abiding

variable {kept : World σ → Prop} (abiding : World.Abiding kept) {w : World σ}

include abiding

theorem happened (happening : Happening) (holds : kept w) : kept (w.happen happening) :=
  abiding.marked (v := w) rfl rfl rfl holds

/-- Closings leave it so too. -/
theorem closed (closing : Closing) (holds : kept w) : kept (closing.apply w) := by
  cases closing with
  | release handle => exact abiding.apart (World.apart_release handle w) holds
  | resetSpans spans => exact abiding.marked (v := w) rfl rfl rfl holds

end World.Abiding

/-- A client's program leaves this state behind, ending well or failing, and the
world was empty before it. -/
def Reachable (s : State σ) : Prop :=
  ∃ client depth program ended, ended ≠ .error .exhausted ∧
    (Run.run depth program).result ⟨.empty, [], client⟩ = (ended, s)

namespace Follower

/-- An invariant as a follower: never behind, and undisturbed by anything. -/
def invariant (kept : World σ → Prop) : Follower σ where
  ready _ := kept
  fresh _ := True
  own _ := False
  subscriptions := []
  attendances := []
  tolerates _ _ := True
  permits _ := True
  disturbs _ := False

def Preserves (kept : World σ → Prop) (s t : State σ) : Prop :=
  kept s.world → kept t.world

/-- What an invariant of all worlds owes. -/
structure Invariant (kept : World σ → Prop) : Prop extends World.Abiding kept where
  empty : kept .empty
  /-- It is binding properties that breaks it on the way, but not for anyone to see. -/
  bound : ∀ model definitions s,
    Run.Follows (Preserves kept) (Opening.bindComputed model definitions) s

variable {kept : World σ → Prop} {s : State σ} {fire : Fire σ}

theorem onward_preserves (kept : World σ → Prop) : Run.Onward (Preserves kept) where
  refl _ := id
  trans _ _ first then_ := then_ ∘ first

theorem invariant_allows (program : Program σ) : program.Only (invariant kept).permits :=
  only_of_all (fun _ => trivial) program

theorem invariant_takes {work : Run σ α} {P Q : World σ → Prop} (all : ∀ w, Q w)
    (keeps : Run.Follows (Preserves kept) work s) :
    Run.Follows ((invariant kept).Takes P Q) work s :=
  keeps.mono fun _ _ keeps _ ready _ =>
    ⟨⟨keeps ready.1, fun _ _ _ => invariant_allows _⟩, fun _ _ => all _⟩

theorem preserves_of_takes {work : Run σ α} {P Q : World σ → Prop}
    (takes : Run.Follows ((invariant kept).Takes P Q) work s) :
    Run.Follows (Preserves kept) work s :=
  takes.mono fun _ _ takes holds =>
    (@takes [] ⟨holds, fun _ _ _ => invariant_allows _⟩ (by rintro ⟨_, _, none⟩; exact none)).1.1

namespace Invariant

theorem of_apart (invariant_ : Invariant kept) {work : Run σ α}
    (apart : Run.Follows State.Apart work s) : Run.Follows (Preserves kept) work s :=
  apart.mono fun _ _ apart => invariant_.apart apart.1

theorem performed (invariant_ : Invariant kept) (attentive : (invariant kept).Attentive fire)
    {call : Call σ} (silent : call.dispatches = false) :
    Run.Follows (Preserves kept) (Run.perform fire call) s := by
  by_cases plain : call.computes = false
  · exact invariant_.of_apart (Run.apart_perform silent plain)
  · cases call with
    | bindComputed model definitions =>
        refine Run.Follows.attempt ?_
        rw [Run.bindComputed_eq_errand]
        exact (onward_preserves kept).errand (invariant_.bound model definitions s)
          (fun signal t => preserves_of_takes (attentive signal t))
          fun closing t => invariant_.closed closing
    | unbindComputed model =>
        exact Run.follows_alter (World.before_unbindComputed _ _) (invariant_.unbound model s.world)
    | _ => exact absurd rfl plain

theorem lawful (invariant_ : Invariant kept) : (invariant kept).Lawful where
  registered _ behind := absurd trivial behind
  attended _ behind := absurd trivial behind
  marked hubs models _ bindings _ _ _ holds :=
    ⟨invariant_.marked hubs models bindings holds, fun _ => trivial⟩
  held handle _ w holds :=
    ⟨invariant_.apart (World.apart_hold handle w) holds, fun _ => trivial⟩
  released handle _ w holds :=
    ⟨invariant_.apart (World.apart_release handle w) holds, fun _ => trivial⟩
  subscribed hub event callback w _ holds :=
    ⟨invariant_.apart (World.apart_subscribe hub event callback w) holds, fun _ => trivial⟩
  listened document element callback w _ holds :=
    ⟨invariant_.apart (World.apart_listen document element (.client callback) w) holds,
      fun _ => trivial⟩
  stored present plain holds :=
    ⟨invariant_.stored present plain holds, fun _ => Or.inl trivial⟩
  adopted present found scalar _ _ holds :=
    ⟨invariant_.adopted present found scalar holds, fun _ => Or.inl trivial⟩
  renewed _ none := none.elim
  tolerant _ _ := trivial
  typed _ holds :=
    ⟨invariant_.apart (World.apart_editDocument _ _ _) holds, fun _ => Or.inl trivial⟩
  reapplied binding slot event _ _ _ :=
    invariant_takes (fun _ => trivial) (invariant_.of_apart (Run.apart_reapply binding slot event))
  called attentive _ silent _ :=
    invariant_takes (fun _ => trivial) (invariant_.performed attentive silent)

theorem attentive (invariant_ : Invariant kept) (depth : Nat) :
    (invariant kept).Attentive (Run.dispatch depth) :=
  attentive_of_open invariant_.lawful (fun _ => trivial) (fun _ _ => trivial) depth

/-- An invariant holds of every world that comes about. -/
theorem of_reachable (invariant_ : Invariant kept) (reachable : Reachable s) : kept s.world := by
  obtain ⟨client, depth, program, _, deep, ended⟩ := reachable
  have keeps : Run.Follows (Preserves kept) (Run.run depth program) ⟨.empty, [], client⟩ :=
    preserves_of_takes (takes_exec invariant_.lawful (invariant_.attentive depth)
      (invariant_allows program))
  exact (keeps _ _ ended deep).2.1 invariant_.empty

end Invariant

/-! ## Soundness -/

/-- Binding computed properties, or failing to, leaves a sound world sound. -/
theorem preserves_sound_bindComputed (model : Ref .model)
    (definitions : List (String × Definition σ)) :
    Run.Follows (Preserves World.Sound) (Opening.bindComputed model definitions) s := by
  refine (onward_preserves World.Sound).opening_keeping (World.apart_hold _ _).sound
    (fun t => (World.apart_release (.model model) t.world).sound) ?_
  -- from here to the first write the model does not store what its properties keep
  refine Run.Follows.alter_bind (B := fun t u => t.world.Building model → u.world.Sound)
    (World.before_unbindComputed _ _) ?_ fun u brings sound => brings ?_
  · refine (Run.buildAllOrNone_builds definitions).bind_of
      (B := fun t u => t.world.Building model → u.world.Sound) (fun _ t _ => ?_)
      (fun error t failed _ _ building => Run.buildAllOrNone_error building failed)
      fun t u _ _ builds brings building => brings (builds building)
    refine Run.refuseCycle_builds.bind_of
      (B := fun t u => t.world.Building model → u.world.Sound) (fun _ t _ => ?_)
      (fun error t failed _ _ building => Run.refuseCycle_error building failed)
      fun t u _ _ builds brings building => brings (builds building)
    refine Run.Follows.world_bind ?_
    split
    · rename_i gone
      intro ended u worked _
      cases worked
      refine ⟨.refl _, fun building => ⟨building.wired, fun other m present => ?_⟩, by rintro _ ⟨⟩⟩
      refine building.stored other ?_ m present
      rintro rfl
      rw [gone] at present
      cases present
    · rename_i m present
      refine Run.Follows.world_bind ?_
      simp only [present]
      refine Run.Follows.alter_bind (World.before_of_eq rfl)
        ((onward_preserves World.Sound).follows_pure _) fun u keeps building => keeps ?_
      rw [State.alter_world, World.update_eq_put present]
      exact Run.sound_initialWrites building present
  · have unbound := World.sound_unbindComputed model sound.wired
      fun other _ => sound.stored other
    exact unbound.building fun _ => World.properties_unbindComputed

theorem sound_empty : (World.empty : World σ).Sound := by
  refine ⟨⟨⟨?_, ?_, ?_⟩, ?_⟩, ?_⟩
  case refine_4 =>
    rintro s binding slot ⟨hub, present, -⟩
    rw [World.empty, Table.get?_empty] at present
    cases present
  all_goals
    intro ref row present
    rw [World.empty, Table.get?_empty] at present
    cases present

theorem soundness : Invariant (World.Sound (σ := σ)) where
  empty := sound_empty
  apart apart := apart.sound
  marked hubs models bindings := (World.Leaves.of_tables hubs models bindings).sound
  stored present plain sound :=
    World.sound_put_store sound present fun regular => plain regular.maps
  adopted present found scalar sound := World.sound_put_adopt sound present found scalar
  unbound model _ sound :=
    World.sound_unbindComputed model sound.wired fun other _ => sound.stored other
  bound model definitions _ := preserves_sound_bindComputed model definitions

/-- Whatever clients do, the journal goes on and failures are noted. -/
theorem goes (depth : Nat) : Goes (σ := σ) (Run.dispatch depth) :=
  (soundness.attentive depth).goes soundness.lawful fun _ => trivial

end Follower

/-- Every world that comes about is sound. -/
theorem sound_of_reachable {s : State σ} (reachable : Reachable s) : s.world.Sound :=
  Follower.soundness.of_reachable reachable

end LiveBinding
