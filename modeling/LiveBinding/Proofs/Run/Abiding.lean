/-
# LiveBinding.Proofs.Run.Abiding -- what abides wherever a run gets

What abides whatever runs (`World.Abiding`) is upheld by every opening, whether it ends well
or fails, by every closing, and by every call that dispatches nothing.  So it holds wherever
a run gets, at all of its moments and between them (`Trail.abides`).

Only binding properties may break it on the way, where nobody can see.  So of a binding it is
to be shown that all is well again when its dispatches begin.
-/
import LiveBinding.Proofs.Run.Bears

namespace LiveBinding

set_option autoImplicit false

variable {σ : Type} {kept : World σ → Prop} {s : State σ}

namespace Run

abbrev Upholds (kept : World σ → Prop) {α : Type} : Run σ α → State σ → Prop :=
  Leads (World.Carries kept)

/-- Work that comes to an end upholds what it preserves in any end that it comes to. -/
theorem upholds_of_follows {α : Type} {work : Run σ α} (concludes : Concludes work)
    (follows : Follows (Follower.Preserves kept) work s) : Upholds kept work s :=
  (follows _ _ rfl fun exhausted => concludes s _ (Prod.ext exhausted rfl)).2.1

variable (abiding : World.Abiding kept)

include abiding

theorem upholds_apart {α : Type} {work : Run σ α} (concludes : Concludes work)
    (apart : Follows State.Apart work s) : Upholds kept work s :=
  upholds_of_follows concludes (apart.mono fun _ _ apart => abiding.apart apart.1)

/-- Whatever openings do to the world upholds it. -/
theorem bears_of_abiding : Bears (State.Through (World.Carries kept)) where
  failed _ _ := abiding.happened _
  reported _ _ := abiding.happened _
  held model _ := abiding.apart (World.apart_hold (.model model) _)
  triggered hub _ := abiding.apart (World.apart_hold (.hub hub) _)
  closed closing _ := abiding.closed closing
  moved _ _ := id
  stored := abiding.stored
  adopted := abiding.adopted

/-- What comes before the dispatches of a listener upholds what abides. -/
theorem upholds_reaction {reaction : Reaction} {event : Event} {opening : Run σ Errand}
    (opens : reaction.opening event = some opening) : Upholds kept opening s :=
  (bears_of_abiding abiding).reaction opens (fun _ _ _ _ => abiding.happened _)
    fun _ _ _ => upholds_apart abiding (concludes_reapply _ _ _) (apart_reapply _ _ _)

/-- So does what comes before the dispatches of a call, unless it binds properties. -/
theorem upholds_opening {call : Call σ} {opening : Run σ Errand}
    (opens : call.opening = some opening)
    (other : ∀ model definitions, call ≠ .bindComputed model definitions) :
    Upholds kept opening s := by
  have held : ∀ (document : Ref .document) (t : State σ),
      State.Through (World.Carries kept) t (t.alter (.hold (.document document))) :=
    fun document t => abiding.apart (World.apart_hold (.document document) t.world)
  refine (bears_of_abiding abiding).opening opens
    (fun model definitions same => absurd same (other model definitions))
    (fun document _ _ => held document s) fun document element text _ => ?_
  exact .alter_bind (abiding.marked rfl rfl rfl)
    ((bears_of_abiding abiding).keeping (held document _) (drives_pure _))

/-- And so does a call that dispatches nothing. -/
theorem upholds_perform {fire : Fire σ} {call : Call σ} {answer : call.Answer} {t : State σ}
    (quiet : call.opening = none) (performed : (perform fire call).result s = (.ok answer, t)) :
    World.Carries kept s.world t.world := by
  obtain ⟨model, -, rfl⟩ | ⟨-, apart, -⟩ := perform_quiet_cases quiet performed
  · exact abiding.unbound model s.world
  · exact abiding.apart apart

end Run

/-! ## Runs -/

namespace Trail

variable {start : State σ} {past : List (Moment σ)} {awaited : Option (Call σ)}

/-- What abides holds wherever a run gets, if every binding of properties leaves it so. -/
theorem abides (abiding : World.Abiding kept) (began : kept start.world)
    (trail : Trail start past awaited s)
    (bound : ∀ moment ∈ past, ∀ model definitions,
      moment.point = .making (.bindComputed model definitions) →
      Run.Upholds kept (Opening.bindComputed model definitions) moment.state) : kept s.world := by
  have earlier : ∀ {past : List (Moment σ)} {moment : Moment σ} {holds : Moment σ → Prop},
      (∀ moment' ∈ past ++ [moment], holds moment') → ∀ moment' ∈ past, holds moment' :=
    fun all moment' listed => all moment' (List.mem_append_left _ listed)
  induction trail with
  | start => exact began
  | noted _ happening _ ih => exact abiding.happened happening (ih bound)
  | changed _ _ ih => exact ih bound
  | @listened _ s _ document element callback ih =>
      exact abiding.apart (World.apart_listen document element _ s.world) (ih bound)
  | @subscribed _ s _ hub event callback ih =>
      exact abiding.apart (World.apart_subscribe hub event _ s.world) (ih (earlier bound))
  | making _ call ih => exact ih (earlier bound)
  | answered _ quiet performed ih =>
      exact Run.upholds_perform abiding quiet performed (ih (earlier bound))
  | @opened _ s t call opening ended trail opens worked ih =>
      obtain ⟨before, rfl, -⟩ := trail.awaits
      have upheld : Run.Upholds kept opening s := by
        by_cases binds : ∃ model definitions, call = .bindComputed model definitions
        · obtain ⟨model, definitions, rfl⟩ := binds
          cases opens
          exact bound _ (List.mem_append_right _ (List.mem_singleton.mpr rfl)) model definitions rfl
        · exact Run.upholds_opening abiding opens fun model definitions same =>
            binds ⟨model, definitions, same⟩
      have there := upheld (ih bound)
      rwa [worked] at there
  | made _ _ _ ih => exact ih (earlier bound)
  | dispatching _ _ ih => exact ih (earlier bound)
  | calling _ _ _ _ ih => exact abiding.happened _ (ih (earlier bound))
  | @reacted _ s _ _ _ _ _ _ opens worked ih =>
      have upheld := Run.upholds_reaction (s := s) abiding opens (ih bound)
      rwa [worked] at upheld
  | closed _ closing ih => exact abiding.closed closing (ih bound)

/-- An invariant holds wherever a run gets. -/
theorem keeps (invariant_ : Follower.Invariant kept) (began : kept start.world)
    (trail : Trail start past awaited s) : kept s.world :=
  trail.abides invariant_.toAbiding began fun moment _ model definitions _ =>
    Run.upholds_of_follows (Run.concludes_bindComputed model definitions)
      (invariant_.bound model definitions moment.state)

end Trail

/-- A run gets to this state, on the way or at its end, and the world was empty before it. -/
def Attained (s : State σ) : Prop :=
  ∃ client past awaited, Trail ⟨.empty, [], client⟩ past awaited s

theorem attained_of_reachable (reachable : Reachable s) : Attained s := by
  obtain ⟨client, depth, program, ended, -, ran⟩ := reachable
  have trail := Run.trail_moments depth program ⟨.empty, [], client⟩
  rw [ran] at trail
  exact ⟨client, _, none, trail⟩

/-- Every world that a run gets to is sound. -/
theorem sound_of_attained (attained : Attained s) : s.world.Sound := by
  obtain ⟨client, past, awaited, trail⟩ := attained
  exact trail.keeps Follower.soundness Follower.sound_empty

end LiveBinding
