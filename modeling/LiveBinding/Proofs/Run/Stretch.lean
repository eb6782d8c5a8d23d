/-
# LiveBinding.Proofs.Run.Stretch -- what is done at each moment of a run

A trail says what a run passes, and a course which dispatch each listener is called by.  A
stretch says what is done at each moment, up to the dispatches that come of it: at the moment
of a call what the call does, and at the moment at which a listener is called what the
listener does (`Stretch`).  Between moments nothing is done but to take notes, to let go of
what was held, and what clients do with their own state.

Where clients make only permitted calls, and so do the callbacks they enrol, every run is
a stretch of permitted calls (`stretch_moments`).  So what a run does to one thing is
what the moments do to it that concern it, one after another.
-/
import LiveBinding.Proofs.Run.Abiding
import LiveBinding.Proofs.Run.Aside

namespace LiveBinding

set_option autoImplicit false

variable {σ : Type}

def State.Allows (permits : Call σ → Prop) (s : State σ) : Prop :=
  ∀ callback ∈ s.callbacks, ∀ event, (callback event).Only permits

def Point.IsPassed : Point σ → Prop
  | .made _ _ => True
  | .dispatching _ => True
  | _ => False

/-- How work in which permitted calls are made gets from one state to another, past these
moments. -/
inductive Stretch (permits : Call σ → Prop) : List (Moment σ) → State σ → State σ → Prop where
  | refl (s : State σ) : Stretch permits [] s s
  | trans {ms ms' : List (Moment σ)} {s t u : State σ} (first : Stretch permits ms s t)
      (rest : Stretch permits ms' t u) : Stretch permits (ms ++ ms') s u
  | noted (happening : Happening) (s : State σ) :
      Stretch permits [] s (s.alter (.happen happening))
  | changed (f : σ → σ) (s : State σ) : Stretch permits [] s { s with client := f s.client }
  | listened (document : Ref .document) (element : Ref .element) {callback : Program σ}
      (allowed : callback.Only permits) (s : State σ) :
      Stretch permits [] s (s.listen document element callback).2
  | subscribed (hub : Ref .hub) (event : String) {callback : Event → Program σ}
      (allowed : ∀ event, (callback event).Only permits) (s : State σ) :
      Stretch permits
        [⟨.subscribed (s.subscribe hub event callback).1 s.callbacks.length,
          (s.subscribe hub event callback).2⟩] s (s.subscribe hub event callback).2
  | passed (point : Point σ) (s : State σ) (passing : point.IsPassed) :
      Stretch permits [⟨point, s⟩] s s
  /-- A call is made that dispatches nothing. -/
  | answered {s t : State σ} {call : Call σ} {fire : Fire σ} {answer : call.Answer}
      (permitted : permits call) (quiet : call.opening = none)
      (performed : (Run.perform fire call).result s = (.ok answer, t)) :
      Stretch permits [⟨.making call, s⟩] s t
  /-- A call is made, up to its dispatches. -/
  | opened {s t : State σ} {call : Call σ} {opening : Run σ Errand} {ended : Except Halt Errand}
      (permitted : permits call) (opens : call.opening = some opening)
      (worked : opening.result s = (ended, t)) : Stretch permits [⟨.making call, s⟩] s t
  /-- A callback is called. -/
  | called (signal : Signal) (began id callback : Nat) (s : State σ) :
      Stretch permits
        [⟨.calling signal began id (.client callback), s.alter (.happen (.called began id))⟩] s
        (s.alter (.happen (.called began id)))
  /-- Another listener is called, up to the dispatches that come of it. -/
  | reacted (signal : Signal) (began id : Nat) {s t : State σ} {reaction : Reaction}
      {opening : Run σ Errand} {ended : Except Halt Errand}
      (opens : reaction.opening (Run.eventOf signal) = some opening)
      (worked : opening.result (s.alter (.happen (.called began id))) = (ended, t)) :
      Stretch permits
        [⟨.calling signal began id reaction, s.alter (.happen (.called began id))⟩] s t
  | closed (closing : Closing) (s : State σ) : Stretch permits [] s (s.alter closing.apply)

namespace Run

variable {s t : State σ} {call : Call σ} {opening : Run σ Errand} {ended : Except Halt Errand}

/-! ## Callbacks are only enrolled by programs -/

theorem callbacks_perform {fire : Fire σ} {answer : call.Answer} (quiet : call.opening = none)
    (performed : (perform fire call).result s = (.ok answer, t)) : t.callbacks = s.callbacks := by
  obtain ⟨model, -, rfl⟩ | ⟨-, -, callbacks⟩ := perform_quiet_cases quiet performed
  · rfl
  · exact callbacks

theorem callbacks_opening (opens : call.opening = some opening)
    (worked : opening.result s = (ended, t)) : t.callbacks = s.callbacks := by
  by_cases types : ∃ document element text, call = .typeInto document element text
  · obtain ⟨document, element, text, rfl⟩ := types
    cases opens
    have aside := result_opening_typeInto document element text s
    rw [worked] at aside
    exact aside.callbacks
  · have aside := aside_opening opens
      (fun document element text same => types ⟨document, element, text, same⟩) s
    rw [worked] at aside
    exact aside.callbacks

/-- A slot that is called is applied anew, and that is all. -/
theorem result_opening_reapply {event : Event} {binding : Ref .binding} {index : Nat}
    (opens : (Reaction.reapply binding index).opening event = some opening)
    (worked : opening.result s = (ended, t)) :
    ∃ ended', (reapply binding index event.name).result s = (ended', t) := by
  cases opens
  rcases reapplied : (reapply binding index event.name).result s with ⟨halt | ⟨⟩, u⟩
  · rw [result_bind_error reapplied] at worked
    cases worked
    exact ⟨_, rfl⟩
  · rw [result_bind_ok reapplied] at worked
    cases worked
    exact ⟨_, rfl⟩

theorem callbacks_reaction {event : Event} {reaction : Reaction}
    (opens : reaction.opening event = some opening) (worked : opening.result s = (ended, t)) :
    t.callbacks = s.callbacks := by
  by_cases reapplies : ∃ binding index, reaction = .reapply binding index
  · obtain ⟨binding, index, rfl⟩ := reapplies
    obtain ⟨ended', reapplied⟩ := result_opening_reapply opens worked
    refine (apart_reapply binding index event.name ended' t reapplied ?_).2.1.2
    rintro rfl
    exact concludes_reapply binding index event.name s t reapplied
  · have aside := aside_reaction opens
      (fun binding index same => reapplies ⟨binding, index, same⟩) s
    rw [worked] at aside
    exact aside.callbacks

end Run

variable {permits : Call σ → Prop}

theorem State.Allows.concat {s t : State σ} (allows : s.Allows permits)
    {callback : Event → Program σ} (allowed : ∀ event, (callback event).Only permits)
    (enrolled : t.callbacks = s.callbacks ++ [callback]) : t.Allows permits := by
  intro other listed
  rw [enrolled] at listed
  rcases List.mem_append.mp listed with old | new
  · exact allows other old
  · rw [List.mem_singleton.mp new]
    exact allowed

namespace Stretch

variable {ms : List (Moment σ)} {s t : State σ}

theorem close (first : Stretch permits ms s t) (settled : Errand) :
    Stretch permits ms s (t.alter settled.close) := by
  obtain ⟨signals, closings⟩ := settled
  induction closings generalizing t with
  | nil => exact first
  | cons closing rest ih =>
      have closed : Stretch permits (ms ++ []) s (t.alter closing.apply) :=
        first.trans (.closed closing t)
      rw [List.append_nil] at closed
      exact ih closed

theorem allows (stretch : Stretch permits ms s t) (allows : s.Allows permits) :
    t.Allows permits := by
  have same : ∀ {s t : State σ}, t.callbacks = s.callbacks → s.Allows permits → t.Allows permits :=
    fun same allows callback listed => allows callback (same ▸ listed)
  induction stretch with
  | refl | noted | changed | passed | called | closed => exact allows
  | trans _ _ ih ih' => exact ih' (ih allows)
  | listened document element allowed s => exact allows.concat (fun _ => allowed) rfl
  | subscribed hub event allowed s => exact allows.concat allowed rfl
  | answered permitted quiet performed => exact same (Run.callbacks_perform quiet performed) allows
  | opened permitted opens worked => exact same (Run.callbacks_opening opens worked) allows
  | reacted signal began id opens worked => exact same (Run.callbacks_reaction opens worked) allows

/-- What abides holds after a stretch in which no properties are bound, if it held before. -/
theorem abides {kept : World σ → Prop} (abiding : World.Abiding kept)
    (plain : ∀ model definitions, ¬ permits (.bindComputed model definitions))
    (stretch : Stretch permits ms s t) (holds : kept s.world) : kept t.world := by
  induction stretch with
  | refl | changed | passed => exact holds
  | trans _ _ ih ih' => exact ih' (ih holds)
  | noted happening s => exact abiding.happened happening holds
  | listened document element _ s =>
      exact abiding.apart (World.apart_listen document element _ s.world) holds
  | subscribed hub event _ s => exact abiding.apart (World.apart_subscribe hub event _ s.world) holds
  | answered _ quiet performed => exact Run.upholds_perform abiding quiet performed holds
  | @opened s _ _ _ _ permitted opens worked =>
      have upheld := Run.upholds_opening (s := s) abiding opens fun model definitions same =>
        plain model definitions (same ▸ permitted)
      rw [Run.Upholds, Run.Leads, worked] at upheld
      exact upheld holds
  | called => exact abiding.happened _ holds
  | @reacted signal began id s _ _ _ _ opens worked =>
      have upheld := Run.upholds_reaction (s := s.alter (.happen (.called began id))) abiding opens
      rw [Run.Upholds, Run.Leads, worked] at upheld
      exact upheld (abiding.happened _ holds)
  | closed closing s => exact abiding.closed closing holds

end Stretch

/-! ## Runs are stretches -/

namespace Run

variable {ms : List (Moment σ)} {s : State σ}

def Stretches (permits : Call σ → Prop) (visit : Signal → State σ → List (Moment σ))
    (fire : Fire σ) : Prop :=
  ∀ signal s, s.Allows permits → Stretch permits (visit signal s) s ((fire signal).result s).2

variable {visit : Signal → State σ → List (Moment σ)} {fire : Fire σ}
  (stretches : Stretches permits visit fire)

include stretches

theorem stretch_fireAll (signals : List Signal) (allows : s.Allows permits) :
    Stretch permits (fireMoments visit fire signals s) s ((fireAll fire signals).result s).2 := by
  induction signals generalizing s with
  | nil => exact .refl s
  | cons signal rest ih =>
      have first := stretches signal s allows
      rcases fireAll_cons visit fire s signal rest with ⟨moments, left⟩ | ⟨moments, left⟩
      · rwa [moments, left]
      · rw [moments, left]
        exact first.trans (ih (first.allows allows))

/-- An errand goes on from where its opening has led. -/
theorem stretch_errand {opening : Run σ Errand} {u : State σ} (allows : s.Allows permits)
    (opened : ∀ ended t, opening.result u = (ended, t) → Stretch permits ms s t) :
    Stretch permits (ms ++ errandMoments visit fire opening u) s
      ((errand fire opening).result u).2 := by
  obtain ⟨halt, t, worked, moments, left⟩ | ⟨settled, t, worked, moments, left⟩ :=
    errand_ends visit fire u opening
  · rw [moments, left, List.append_nil]
    exact opened _ t worked
  · have first := opened _ t worked
    rw [moments, left]
    exact (first.trans
      (stretch_fireAll stretches settled.signals (first.allows allows))).close settled

theorem stretch_exec {program : Program σ} (allowed : program.Only permits)
    (allows : s.Allows permits) :
    Stretch permits (execMoments visit fire program s) s ((exec fire program).result s).2 := by
  induction allowed generalizing s with
  | done => exact .refl s
  | fail error => exact .noted (.failed error) s
  | @call call next permitted rest ih =>
      obtain ⟨quiet, answer, t, performed, moments, left⟩ | ⟨opening, opens, ended⟩ :=
        exec_call visit fire s call next
      · have here : Stretch permits _ s t := .answered permitted quiet performed
        rw [moments, left]
        exact here.trans ((Stretch.passed (.made call answer) t trivial).trans
          (ih answer (here.allows allows)))
      · have there : Stretch permits _ s _ := stretch_errand stretches (u := s) allows
          fun _ _ => .opened permitted opens
        rcases ended with ⟨moments, left⟩ | ⟨answer, moments, left⟩
        · rw [moments, left]
          exact there
        · rw [moments, left]
          exact there.trans ((Stretch.passed (.made call answer) _ trivial).trans
            (ih answer (there.allows allows)))
  | @subscribe hub event callback next called _ _ ih =>
      have here := Stretch.subscribed hub event called s
      exact here.trans (ih _ (here.allows allows))
  | @listen document element callback next called _ _ ih =>
      have here := Stretch.listened document element called s
      exact here.trans (ih _ (here.allows allows))
  | look _ ih => exact ih s.world s.client allows
  | @change f next _ ih => exact (Stretch.changed f s).trans (ih allows)

/-- A listener is called and does what it does. -/
theorem stretch_call (signal : Signal) (began id : Nat) (reaction : Reaction)
    (allows : s.Allows permits) :
    Stretch permits
      (⟨.calling signal began id reaction, s.alter (.happen (.called began id))⟩ ::
        reactMoments visit fire (eventOf signal) reaction (s.alter (.happen (.called began id))))
      s ((react fire (eventOf signal) reaction).result
        (s.alter (.happen (.called began id)))).2 := by
  obtain ⟨callback, rfl, ended⟩ | ⟨opening, opens, moments, is⟩ := react_cases visit fire
    (s.alter (.happen (.called began id))) (eventOf signal) reaction
  · have here : Stretch permits _ s _ := .called signal began id callback s
    rcases ended with ⟨moments, left⟩ | ⟨program, enrolled, moments, left⟩
    · rwa [moments, left]
    · rw [moments, left]
      exact here.trans (stretch_exec stretches (allows program enrolled _) allows)
  · rw [moments, is]
    exact stretch_errand stretches allows fun _ _ => .reacted signal began id opens

theorem stretch_deliver (signal : Signal) (began : Nat) (listed : List (Nat × Reaction))
    (allows : s.Allows permits) :
    Stretch permits (deliverMoments visit fire signal began listed s) s
      ((deliver fire signal began listed).result s).2 := by
  induction listed generalizing s with
  | nil => exact .refl s
  | cons entry rest ih =>
      obtain ⟨id, reaction⟩ := entry
      obtain ⟨moments, same⟩ | ⟨-, ended⟩ := deliver_cons visit fire s signal began id reaction rest
      · rw [moments, same]
        exact ih allows
      · have called := stretch_call stretches signal began id reaction allows
        rcases ended with ⟨moments, left⟩ | ⟨moments, left⟩
        · rw [moments, left]
          exact called
        · rw [moments, left]
          exact called.trans (ih (called.allows allows))

omit stretches in
theorem stretches_dispatch (depth : Nat) :
    Stretches permits (dispatchMoments depth) (dispatch depth) := by
  induction depth with
  | zero => exact fun _ s _ => .refl s
  | succ depth ih =>
      intro signal s allows
      have begun : Stretch permits _ s _ :=
        (Stretch.passed (.dispatching signal) s trivial).trans (.noted (.dispatched signal) s)
      rw [dispatch, result_world_bind, result_alter_bind]
      exact begun.trans (stretch_deliver ih signal _ _ allows)

omit stretches in
/-- A run is a stretch, past all its moments. -/
theorem stretch_moments (depth : Nat) {program : Program σ} (allowed : program.Only permits)
    (allows : s.Allows permits) :
    Stretch permits (moments depth program s) s ((run depth program).result s).2 :=
  stretch_exec (stretches_dispatch depth) allowed allows

end Run

end LiveBinding
