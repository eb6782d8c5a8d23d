/-
# LiveBinding.Proofs.Run.Past -- what is known of the moments that are past

A relation between worlds along which one can go on, and which every step is of, relates
each moment of a run to whatever comes after it (`Trail.relates`).  A listener that is
called was listed when its dispatch began, which is past, and is registered
(`Trail.calls`).
-/
import LiveBinding.Proofs.Run.Step

namespace LiveBinding

set_option autoImplicit false

variable {σ : Type}

/-- If a listener is called at the moment, it is registered then, and it was listed when the
dispatch began that it is called by, which is past. -/
def Moment.IsDue (past : List (Moment σ)) (m : Moment σ) : Prop :=
  ∀ signal began listener reaction, m.point = .calling signal began listener reaction →
    (∃ first, ⟨.dispatching signal, first⟩ ∈ past ∧ began = first.world.journal.length ∧
      (listener, reaction) ∈ Run.listeners first.world signal) ∧
    Run.isRegistered m.state.world signal listener = true

theorem Moment.IsDue.mono {past : List (Moment σ)} {m : Moment σ} (due : m.IsDue past)
    (more : List (Moment σ)) : m.IsDue (past ++ more) := by
  intro signal began listener reaction called
  obtain ⟨⟨first, dispatched, listed⟩, registered⟩ := due signal began listener reaction called
  exact ⟨⟨first, List.mem_append_left _ dispatched, listed⟩, registered⟩

namespace Trail

variable {start s : State σ} {past : List (Moment σ)} {awaited : Option (Call σ)}

/-- What was related to the moments that are past, and to one more. -/
theorem forall_mem_concat {R : World σ → World σ → Prop} [IsPreorder (World σ) R] {s t : State σ}
    (point : Point σ) (on : R s.world t.world)
    (earlier : R start.world s.world ∧ ∀ m ∈ past, R m.state.world s.world) :
    R start.world t.world ∧ ∀ m ∈ past ++ [⟨point, t⟩], R m.state.world t.world := by
  refine ⟨IsTrans.trans _ _ _ earlier.1 on, fun m listed => ?_⟩
  rcases List.mem_append.mp listed with old | new
  · exact IsTrans.trans _ _ _ (earlier.2 m old) on
  · rw [List.mem_singleton.mp new]
    exact refl t.world

/-- What goes on at every step goes on along a run, from each of its moments. -/
theorem relates (careful : Prop) {R : World σ → World σ → Prop} [IsPreorder (World σ) R]
    (stepped : ∀ {v w : World σ}, v.Steps careful False w → R v w)
    (noted : ∀ (happening : Happening) (w : World σ), R w (w.happen happening))
    (subscribed : ∀ (hub : Ref .hub) (event : String) (callback : Nat) (w : World σ),
      R w (w.subscribe hub event (.client callback)).2)
    (cancelled : ∀ (subscription : Subscription) (w : World σ), R w (w.withdraw subscription))
    (answered : ∀ {s t : State σ} {call : Call σ} {fire : Fire σ} {answer : call.Answer},
      call.opening = none → (∀ subscription, call ≠ .cancel subscription) →
      (Run.perform fire call).result s = (.ok answer, t) → s.world.Steps careful True t.world →
      R s.world t.world)
    (bare : careful → start.world.Announced) (trail : Trail start past awaited s)
    (named : ∀ m ∈ past, careful → m.IsCareful) :
    R start.world s.world ∧ ∀ m ∈ past, R m.state.world s.world := by
  refine trail.invariant careful
    (fun past s => R start.world s.world ∧ ∀ m ∈ past, R m.state.world s.world)
    ⟨refl _, fun _ none => absurd none List.not_mem_nil⟩ ?_ ?_ ?_ ?_ ?_ ?_ bare named
  · rintro past s t steps ⟨begun, earlier⟩
    exact ⟨IsTrans.trans _ _ _ begun (stepped steps), fun m listed =>
      IsTrans.trans _ _ _ (earlier m listed) (stepped steps)⟩
  · exact fun _ earlier => forall_mem_concat _ (refl _) earlier
  · exact fun hub event callback earlier => forall_mem_concat _ (subscribed hub event _ _) earlier
  · exact fun subscription earlier => forall_mem_concat _ (cancelled subscription _) earlier
  · exact fun quiet other performed steps earlier =>
      forall_mem_concat _ (answered quiet other performed steps) earlier
  · exact fun _ _ _ earlier => forall_mem_concat _ (noted _ _) earlier

/-- Whoever is called is registered, and was listed when the dispatch began. -/
theorem calls (trail : Trail start past awaited s) : ∀ m ∈ past, m.IsDue past := by
  have marked : ∀ {past : List (Moment σ)} {m : Moment σ}, (∀ m' ∈ past, m'.IsDue past) →
      m.IsDue past → ∀ m' ∈ past ++ [m], m'.IsDue (past ++ [m]) := by
    intro past m earlier here m' listed
    rcases List.mem_append.mp listed with old | new
    · exact (earlier m' old).mono _
    · rw [List.mem_singleton.mp new]
      exact here.mono _
  refine trail.invariant False (fun past _ => ∀ m ∈ past, m.IsDue past)
    (fun _ none => absurd none List.not_mem_nil) (fun _ => id) ?_ ?_ ?_ ?_ ?_ False.elim
    fun _ _ => False.elim
  · intro past s point mark earlier
    refine marked earlier ?_
    rintro signal began listener reaction rfl
    exact mark.elim
  · exact fun hub event callback earlier => marked earlier nofun
  · exact fun subscription earlier => marked earlier nofun
  · exact fun _ _ _ _ earlier => marked earlier nofun
  · intro past s first signal listener reaction dispatched listed registered earlier
    refine marked earlier ?_
    rintro _ _ _ _ ⟨⟩
    exact ⟨⟨first, dispatched, rfl, listed⟩, registered⟩

end Trail

def World.HubsLast (v w : World σ) : Prop := Lasts v.hubs w.hubs

instance : IsPreorder (World σ) World.HubsLast where
  refl w := Lasts.refl w.hubs
  trans _ _ _ := Lasts.trans

/-- Hubs only go on, since each of the moments that were passed. -/
theorem Trail.lasts {start s : State σ} {past : List (Moment σ)} {awaited : Option (Call σ)}
    (trail : Trail start past awaited s) :
    Lasts start.world.hubs s.world.hubs ∧ ∀ m ∈ past, Lasts m.state.world.hubs s.world.hubs :=
  trail.relates False (R := World.HubsLast) (fun steps => steps.lasts)
    (fun _ w => .refl w.hubs) (fun hub event callback => World.lasts_subscribe hub event (.client callback))
    World.lasts_withdraw (fun _ _ _ steps => steps.lasts) False.elim fun _ _ => False.elim

/-- Whoever is called by the dispatch of an event is registered for it. -/
theorem Trail.registered {start s : State σ} {past : List (Moment σ)} {awaited : Option (Call σ)}
    (trail : Trail start past awaited s) (ordered : Ordered start.world.hubs) {m : Moment σ}
    (listed : m ∈ past) {hub : Ref .hub} {event : Event} {began id : Nat} {reaction : Reaction}
    (called : m.point = .calling (.event hub event) began id reaction) :
    Registered m.state.world.hubs ⟨hub, id, event.name⟩ reaction := by
  obtain ⟨before, after, split⟩ := List.append_of_mem listed
  have here := trail.upTo split
  obtain ⟨⟨first, dispatched, -, hearing⟩, registered⟩ :=
    here.calls m (List.mem_append_right _ (List.mem_singleton.mpr rfl)) _ _ _ _ called
  obtain ⟨earlier, later, splitThen⟩ := List.append_of_mem dispatched
  have orderedThen := (here.upTo splitThen).lasts.1.ordered ordered
  rw [Run.isRegistered] at registered
  split at registered
  · rename_i h present
    exact (here.lasts.2 _ dispatched).registered orderedThen
      (Follower.mem_listeners_event.mp hearing) present registered
  · cases registered

/-- Of the models of a moment only those are left that are on the hubs on which they were. -/
theorem Trail.modelsLast {start s : State σ} {past : List (Moment σ)}
    {awaited : Option (Call σ)} (trail : Trail start past awaited s) :
    start.world.ModelsLast s.world ∧ ∀ m ∈ past, m.state.world.ModelsLast s.world :=
  trail.relates False (R := World.ModelsLast) (fun steps => steps.modelsLast)
    (fun _ _ => .of_eq rfl)
    (fun hub event callback w => .of_eq (World.tables_subscribe hub event (.client callback) w).1)
    (fun _ _ => .of_eq rfl) (fun _ _ _ steps => steps.modelsLast) False.elim fun _ _ => False.elim

end LiveBinding
