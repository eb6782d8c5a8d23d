/-
# LiveBinding.Proofs.Run.Passage -- runs from their beginning

A passage is a run from its beginning in which clients name only what is there: the moments
that it has passed, and the state that it has got to (`Passage`).  It is a trail and a course.
So its moments come in the order of the journal, hubs list at each of them what they owe, and
what the journal says of calls can be read back (`Passage.call_made`): each was made at a
moment at which the listener was registered, by a dispatch that began when it was registered
already.  It gets to every turn of its dispatches (`Passage.delivers`).
-/
import LiveBinding.Proofs.Ownership
import LiveBinding.Proofs.Run.Course
import LiveBinding.Proofs.Run.Since

namespace LiveBinding

set_option autoImplicit false

variable {σ : Type}

def Subscription.signal (s : Subscription) (value : Json) : Signal :=
  .event s.hub ⟨s.event, value⟩

theorem dependency_of_signal {s s' : Subscription} {value value' : Json}
    (same : s.signal value = s'.signal value') : s.dependency = s'.dependency := by
  injection same with hub event
  injection event with event
  rw [Subscription.dependency, Subscription.dependency, hub, event]

/-! ## Bound properties along a run -/

theorem World.inBalance_empty : (World.empty : World σ).InBalance :=
  ⟨[], World.isSettled_empty.balanced⟩

/-- Of a property that was bound a listener is still registered if the property is still bound, and
only then. -/
theorem World.PropertiesLast.isRegistered_iff {v w : World σ} (lasting : v.PropertiesLast w)
    (balanced : v.InBalance) {model : Ref .model} {p : Property σ} (binds : v.Binds model p)
    {s : Subscription} (held : s ∈ p.subscriptions) (value : Json) :
    Run.isRegistered w (s.signal value) s.id = true ↔ w.Binds model p := by
  refine ⟨fun registered => ?_, fun bound => Follower.isRegistered_of_mem_listeners
    (Follower.mem_listeners_event.mpr ((lasting.balanced balanced).registered bound held))⟩
  rcases lasting.onward balanced binds with bound | gone
  · exact bound
  · rw [Subscription.signal, Run.isRegistered] at registered
    split at registered
    · rename_i h present
      cases registered.symm.trans ((gone s held).isRegistered present)
    · cases registered

/-- Wherever a run gets, hubs list what they owe, and properties have lasted since each of its
moments or are gone. -/
theorem Trail.propertiesLast {client : σ} {past : List (Moment σ)} {awaited : Option (Call σ)}
    {s : State σ} (trail : Trail ⟨.empty, [], client⟩ past awaited s)
    (careful : ∀ m ∈ past, m.IsCareful) :
    s.world.InBalance ∧ ∀ m ∈ past, m.state.world.PropertiesLast s.world := by
  have begun : (State.world ⟨.empty, [], client⟩ : World σ).InBalance := World.inBalance_empty
  have lasting := trail.relates True (R := World.PropertiesLast) (fun steps => steps.propertiesLast)
    World.propertiesLast_happen World.propertiesLast_subscribe World.propertiesLast_withdraw
    (fun _ _ _ steps => steps.propertiesLast)
    (fun _ => begun.choose_spec.announced) fun m listed _ => careful m listed
  exact ⟨lasting.1.balanced begun, lasting.2⟩

/-! ## Turns -/

namespace Run

/-- A run gets to every turn of its dispatches, past moments of the dispatch. -/
theorem trail_turns {depth : Nat} {signal : Signal} {start begun s t : State σ}
    {past : List (Moment σ)} {turns : List (Turn σ)} (rest : List (Nat × Reaction))
    (trail : Trail start past none s) (dispatched : ⟨.dispatching signal, begun⟩ ∈ past)
    (among : ∀ l ∈ turns.map Turn.entry ++ rest, l ∈ listeners begun.world signal)
    (follow : Turn.Follow (dispatch depth) signal begun.world.journal.length turns s t)
    (well : ∀ turn ∈ turns.dropLast,
      (turn.result (dispatch depth) signal begun.world.journal.length).1 = .ok ()) :
    ∀ turn ∈ turns, ∃ on, Trail start (past ++ on) none turn.state ∧
      ∀ m ∈ on, m ∈ deliverMoments (dispatchMoments depth) (dispatch depth) signal
        begun.world.journal.length (turns.map Turn.entry ++ rest) s := by
  induction turns generalizing past s with
  | nil => exact fun _ none => absurd none List.not_mem_nil
  | cons first others ih =>
      obtain ⟨here, follow⟩ := follow
      intro turn listed
      rcases List.mem_cons.mp listed with rfl | later
      · exact ⟨[], by rwa [List.append_nil, here], fun _ none => absurd none List.not_mem_nil⟩
      have further : others ≠ [] := List.ne_nil_of_mem later
      rw [List.dropLast_cons_of_ne_nil further] at well
      have ended := well first List.mem_cons_self
      have wellLater := fun turn listed => well turn (List.mem_cons_of_mem _ listed)
      have amongLater : ∀ l ∈ others.map Turn.entry ++ rest, l ∈ listeners begun.world signal :=
        fun l listed => among l (List.mem_cons_of_mem _ listed)
      rw [List.map_cons, List.cons_append, Turn.entry, deliverMoments]
      unfold Turn.result Turn.isRegistered at ended follow
      rw [here] at ended follow
      by_cases registered : isRegistered s.world signal first.listener = true
      · rw [if_pos registered] at ended follow
        have called := trail_react (visits_dispatch start depth) (eventOf signal) first.reaction
          (trail.calling dispatched (among _ List.mem_cons_self) registered)
        rw [List.append_assoc] at called
        obtain ⟨on, there, within⟩ := ih called (List.mem_append_left _ dispatched) amongLater follow
          wellLater turn later
        rw [if_pos registered]
        dsimp only
        refine ⟨_, by rwa [List.append_assoc] at there, fun m passed => ?_⟩
        rcases reacted : (react (dispatch depth) (eventOf signal) first.reaction).result
            (s.alter (.happen (.called begun.world.journal.length first.listener))) with ⟨_ | _, u⟩
        · rw [reacted] at ended
          cases ended
        · rw [reacted] at within
          rcases List.mem_append.mp passed with old | new
          · exact List.mem_append_left _ old
          · exact List.mem_append_right _ (within m new)
      · rw [if_neg registered] at ended follow
        rw [if_neg registered]
        exact ih trail dispatched amongLater follow wellLater turn later

end Run

namespace Delivers

variable {fire : Fire σ} {signal : Signal} {began : Nat} {listed : List (Nat × Reaction)}
  {s t : State σ} {turns : List (Turn σ)} {ended : Except Halt Unit}
  (delivers : Delivers fire signal began listed s turns ended t)

include delivers

/-- All turns but the last end well. -/
theorem well : ∀ turn ∈ turns.dropLast, (turn.result fire signal began).1 = .ok () := by
  intro turn among
  rcases delivers.cut with ⟨-, -, well⟩ | ⟨before, last, halt, rfl, -, -, -, well⟩
  · exact well turn (List.dropLast_subset _ among)
  · rw [List.dropLast_concat] at among
    exact well turn among

/-- If all goes well everybody's turn comes. -/
theorem turn_of_mem (ended_ : ended = .ok ()) {entry : Nat × Reaction} (among : entry ∈ listed) :
    ∃ turn ∈ turns, turn.entry = entry := by
  rcases delivers.cut with ⟨-, all, -⟩ | ⟨_, _, _, -, -, failed, -⟩
  · rw [← all] at among
    exact List.mem_map.mp among
  · rw [ended_] at failed
    cases failed

end Delivers

/-! ## Passages -/

/-- A run from its beginning, in which clients name only what is there, has passed these moments
and got to this state. -/
structure Passage (client : σ) (passed : List (Moment σ)) (last : State σ) : Prop where
  trail : Trail ⟨.empty, [], client⟩ passed none last
  course : Course none passed ⟨.empty, [], client⟩ last
  careful : ∀ m ∈ passed, m.IsCareful

/-- The dispatch that began at one entry of the journal was of the event of the subscription, and
called its listener at another. -/
def World.CallsAt (w : World σ) (began : Nat) (s : Subscription) (j : Nat) : Prop :=
  (∃ value, w.happened began = some (.dispatched (s.signal value))) ∧
    w.happened j = some (.called began s.id)

/-- At the moment the listener of the subscription is about to do what it does.  It is registered,
and was so when the dispatch began that it is called by. -/
structure Moment.Answers (earlier : List (Moment σ)) (began : Nat) (s : Subscription)
    (reaction : Reaction) (m : Moment σ) : Prop where
  called : ∃ value begun, m.point = .calling (s.signal value) began s.id reaction ∧
    ⟨.dispatching (s.signal value), begun⟩ ∈ earlier ∧ began = begun.world.journal.length ∧
      Registered begun.world.hubs s reaction
  registered : Registered m.state.world.hubs s reaction

namespace Passage

variable {client : σ} {passed before after : List (Moment σ)} {last : State σ} {m : Moment σ}
  (run : Passage client passed last)

include run

/-- Each moment comes after those before it, and before those after it, in the journal too. -/
theorem ordered (split : passed = before ++ m :: after) :
    (∀ m' ∈ before, m'.state.world.Before m.state.world ∧
      ∀ model name i, m'.Evaluates model name i → i < m.state.world.journal.length) ∧
    ∀ m' ∈ after, m.state.world.Before m'.state.world ∧
      ∀ model name i, m.Evaluates model name i → i < m'.state.world.journal.length := by
  have ordered := run.course.ordered
  rw [split, List.pairwise_append, List.pairwise_cons] at ordered
  exact ⟨fun m' early => ordered.2.2 m' early m List.mem_cons_self, ordered.2.1.1⟩

/-- The run up to a moment. -/
theorem upTo (split : passed = before ++ m :: after) :
    Trail ⟨.empty, [], client⟩ (before ++ [m]) m.awaited m.state ∧
      ∀ m' ∈ before ++ [m], m'.IsCareful :=
  ⟨run.trail.upTo split, fun m' listed => run.careful m' (Trail.mem_of_upTo split listed)⟩

theorem balanced (listed : m ∈ passed) : m.state.world.InBalance := by
  obtain ⟨before, after, split⟩ := List.append_of_mem listed
  exact ((run.upTo split).1.propertiesLast (run.upTo split).2).1

/-- Properties have lasted since the moments before, and last until those after. -/
theorem lasting (split : passed = before ++ m :: after) :
    (∀ m' ∈ before, m'.state.world.PropertiesLast m.state.world) ∧
      ∀ m' ∈ after, m.state.world.PropertiesLast m'.state.world := by
  have since : ∀ {before after : List (Moment σ)} {m : Moment σ}, passed = before ++ m :: after →
      ∀ m' ∈ before, m'.state.world.PropertiesLast m.state.world := fun split m' early =>
    ((run.upTo split).1.propertiesLast (run.upTo split).2).2 m' (List.mem_append_left _ early)
  refine ⟨since split, fun m' late => ?_⟩
  obtain ⟨between, after', rfl⟩ := List.append_of_mem late
  have split' : passed = (before ++ m :: between) ++ m' :: after' := by rw [split]; simp
  exact since split' m (List.mem_append_right _ List.mem_cons_self)

/-! ### Calls -/

/-- Whoever is called by the dispatch of an event answers to it. -/
theorem answers (split : passed = before ++ m :: after) {hub : Ref .hub} {event : Event}
    {began id : Nat} {reaction : Reaction}
    (called : m.point = .calling (.event hub event) began id reaction) :
    m.Answers before began ⟨hub, id, event.name⟩ reaction := by
  have here := (run.upTo split).1
  have listed : m ∈ before ++ [m] := List.mem_append_right _ (List.mem_singleton.mpr rfl)
  obtain ⟨⟨begun, dispatched, tag, hearing⟩, -⟩ := here.calls m listed _ _ _ _ called
  have early : ⟨.dispatching (.event hub event), begun⟩ ∈ before := by
    rcases List.mem_append.mp dispatched with early | same
    · exact early
    · rw [← List.mem_singleton.mp same] at called
      cases called
  exact ⟨⟨event.value, begun, called, early, tag, Follower.mem_listeners_event.mp hearing⟩,
    here.registered ordered_empty listed called⟩

/-- Each call was made at a moment, after its dispatch had begun. -/
theorem call_made {began j : Nat} {s : Subscription} (calls : last.world.CallsAt began s j) :
    began < j ∧ ∃ before m after reaction, passed = before ++ m :: after ∧
      m.state.world.journal.length = j + 1 ∧ m.Answers before began s reaction := by
  obtain ⟨⟨value, dispatched⟩, called⟩ := calls
  obtain ⟨noted, m, listed, length, signal, reaction, point⟩ :=
    run.course.called (Nat.zero_le _) called
  obtain ⟨before, after, split⟩ := List.append_of_mem listed
  refine ⟨noted, before, m, after, reaction, split, length, ?_⟩
  -- the dispatch that called it is the one that began there
  obtain ⟨⟨begun, dispatching, tag, -⟩, -⟩ := run.trail.calls m listed _ _ _ _ point
  have told := (run.course.tells _ dispatching).dispatched signal rfl
  rw [← tag, dispatched] at told
  cases told
  exact run.answers split point

/-- A property that is bound at some moment is bound whenever one of its listeners is called. -/
theorem binds_of_answers (split : passed = before ++ m :: after) {began : Nat} {s : Subscription}
    {reaction : Reaction} (answers : m.Answers before began s reaction) {first : Moment σ}
    (listed : first ∈ passed) {model : Ref .model} {p : Property σ}
    (binds : first.state.world.Binds model p) (held : s ∈ p.subscriptions) :
    m.state.world.Binds model p ∧ reaction = .refresh model p.name := by
  have balanced := run.balanced (m := m) (split ▸ List.mem_append_right _ List.mem_cons_self)
  have bound : m.state.world.Binds model p := by
    have among := listed
    rw [split] at among
    rcases List.mem_append.mp among with early | late
    · rcases ((run.lasting split).1 _ early).onward (run.balanced listed) binds with binds | gone
      · exact binds
      · exact absurd answers.registered (gone s held).not_registered
    rcases List.mem_cons.mp late with rfl | late
    · exact binds
    · exact ((run.lasting split).2 _ late).back balanced binds held answers.registered
  exact ⟨bound, answers.registered.unique balanced.ordered.numbered (balanced.registered bound held)
    rfl rfl⟩

/-! ### Dispatches -/

/-- The run gets to every turn of a dispatch, and properties have lasted since it began. -/
theorem reaches {signal : Signal} {begun : State σ} (dispatched : ⟨.dispatching signal, begun⟩ ∈ passed)
    {nested : Nat} (within : ∀ m ∈ Run.dispatchMoments (nested + 1) signal begun, m ∈ passed)
    {turns : List (Turn σ)} {ended : Except Halt Unit} {t : State σ}
    (delivers : Delivers (Run.dispatch nested) signal begun.world.journal.length
      (Run.listeners begun.world signal) (begun.alter (.happen (.dispatched signal))) turns ended t) :
    ∀ turn ∈ turns, begun.world.PropertiesLast turn.state.world := by
  intro turn listed
  obtain ⟨before, after, split⟩ := List.append_of_mem dispatched
  obtain ⟨trail, careful⟩ := run.upTo split
  obtain ⟨rest, all⟩ := delivers.ordered
  have here : ⟨.dispatching signal, begun⟩ ∈ before ++ [⟨.dispatching signal, begun⟩] :=
    List.mem_append_right _ (List.mem_singleton.mpr rfl)
  obtain ⟨on, there, passes⟩ := Run.trail_turns rest (Trail.noted trail (.dispatched signal) nofun) here
    (fun l among => all ▸ among) delivers.follow delivers.well turn listed
  have carefully : ∀ m ∈ before ++ [⟨.dispatching signal, begun⟩] ++ on, m.IsCareful := by
    intro m among
    rcases List.mem_append.mp among with early | late
    · exact careful m early
    · refine run.careful m (within m (List.mem_cons_of_mem _ ?_))
      rw [← all]
      exact passes m late
  exact (there.propertiesLast carefully).2 _ (List.mem_append_left _ here)

/-- A dispatch of an event goes by turns, to which properties have lasted since it began.  It
calls those who are registered in their turn, in order, and nobody is called in its name
later. -/
theorem delivers {s : Subscription} {value : Json} {begun : State σ}
    (dispatched : ⟨.dispatching (s.signal value), begun⟩ ∈ passed)
    (there : ∃ h, begun.world.hubs.get? s.hub = some h) :
    ∃ nested turns ended t,
      (Run.dispatch (nested + 1) (s.signal value)).result begun = (ended, t) ∧
      t.world.Before last.world ∧
      Delivers (Run.dispatch nested) (s.signal value) begun.world.journal.length
        (Run.listeners begun.world (s.signal value))
        (begun.alter (.happen (.dispatched (s.signal value)))) turns ended t ∧
      (∀ turn ∈ turns, begun.world.PropertiesLast turn.state.world) ∧
      last.world.calls begun.world.journal.length =
        (turns.filter (·.isRegistered (s.signal value))).map (·.listener) ∧
      (last.world.calls begun.world.journal.length).Pairwise (· < ·) ∧
      last.world.calls begun.world.journal.length = t.world.calls begun.world.journal.length := by
  obtain ⟨h, present⟩ := there
  obtain ⟨nested, ended, t, worked, within, -, -, goesOn, same⟩ :=
    run.course.calls_of (by rintro _ ⟨⟩) dispatched
  obtain ⟨turns, _, _, worked', delivers, made, ascending, -⟩ := Run.dispatch_turns nested
    ⟨s.event, value⟩ present ((run.balanced dispatched).ordered _ _ present)
  cases worked.symm.trans worked'
  have listed : Run.listeners begun.world (s.signal value) =
      (h.listening s.event).map fun l => (l.id, l.reaction) := by
    rw [Subscription.signal, Run.listeners, present]
  rw [← listed] at delivers
  rw [← same] at made ascending
  exact ⟨nested, turns, ended, t, worked, goesOn, delivers, run.reaches dispatched within delivers,
    made, ascending, same⟩

end Passage

end LiveBinding
