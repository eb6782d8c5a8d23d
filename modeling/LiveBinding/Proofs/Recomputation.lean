/-
# LiveBinding.Proofs.Recomputation -- a getter is called once for each dispatch of a dependency

A computed property listens once for each of its dependencies, which are distinct however
often its getter read them.  A dispatch of one of them that begins while the property is bound
calls its listener at most once, since no dispatch calls anybody twice; it does call it unless
the property was released before its turn, or a listener before it failed; and a listener of a
bound property calls its getter first of all, and no more (`Passage.evaluated_by`).

Whatever else a run does calls no getter.  So every call of the getter goes back to such a
dispatch, until properties of that name are bound anew (`Passage.evaluated_only`).  What is
released is gone from its hubs, and as no identifier is given out twice it is never called
again, also by dispatches that have listed it (`Passage.never_evaluated`).
-/
import LiveBinding.Proofs.Run.Passage

namespace LiveBinding

set_option autoImplicit false

variable {σ : Type}

/-! ## Calls in the journal -/

theorem Entry.calledBy_eq_some {began id : Nat} {entry : Entry} :
    entry.calledBy began = some id ↔ entry.happening = .called began id := by
  unfold Entry.calledBy Happening.call?
  cases entry.happening with
  | called tag listener =>
      by_cases same : tag = began
      · simp [same]
      · simp [same]
  | _ => simp

namespace World

variable {w : World σ} {began id : Nat}

theorem mem_calls :
    id ∈ w.calls began ↔ ∃ j, began ≤ j ∧ w.happened j = some (.called began id) := by
  rw [calls, List.mem_filterMap]
  constructor
  · rintro ⟨entry, listed, called⟩
    obtain ⟨k, there⟩ := List.mem_iff_getElem?.mp listed
    rw [List.getElem?_drop] at there
    refine ⟨began + k, Nat.le_add_right _ _, ?_⟩
    rw [happened, there, Option.map_some, Entry.calledBy_eq_some.mp called]
  · rintro ⟨j, late, called⟩
    obtain ⟨entry, there, same⟩ := Option.map_eq_some_iff.mp called
    refine ⟨entry, List.mem_iff_getElem?.mpr ⟨j - began, ?_⟩, Entry.calledBy_eq_some.mpr same⟩
    rwa [List.getElem?_drop, Nat.add_sub_cancel' late]

/-- Whoever is called in turn is called at one entry. -/
theorem called_once (ascending : (w.calls began).Pairwise (· < ·)) {j j' : Nat} (late : began ≤ j)
    (late' : began ≤ j') (called : w.happened j = some (.called began id))
    (called' : w.happened j' = some (.called began id)) : j = j' := by
  rw [calls, List.pairwise_filterMap, List.pairwise_iff_getElem] at ascending
  have apart : ∀ {j j' : Nat}, began ≤ j → j < j' → w.happened j = some (.called began id) →
      w.happened j' ≠ some (.called began id) := by
    intro j j' late less called called'
    obtain ⟨entry, there, same⟩ := Option.map_eq_some_iff.mp called
    obtain ⟨entry', there', same'⟩ := Option.map_eq_some_iff.mp called'
    obtain ⟨below, rfl⟩ := List.getElem?_eq_some_iff.mp there
    obtain ⟨below', rfl⟩ := List.getElem?_eq_some_iff.mp there'
    have sorted := ascending (j - began) (j' - began) (by simp; omega) (by simp; omega) (by omega)
    simp only [List.getElem_drop, Nat.add_sub_cancel' late, Nat.add_sub_cancel' (late.trans less.le)]
      at sorted
    exact absurd (sorted id (Entry.calledBy_eq_some.mpr same) id (Entry.calledBy_eq_some.mpr same'))
      (Nat.lt_irrefl _)
  rcases Nat.lt_trichotomy j j' with less | same | more
  · exact absurd called' (apart late less called)
  · exact same
  · exact absurd called (apart late' more called')

end World

/-! ## Evaluations -/

/-- The getter of the property is called at an entry of the journal by the dispatch that began at
another, which has just called a listener of the property. -/
def World.ReevaluatesAt (w : World σ) (model : Ref .model) (p : Property σ) (began i : Nat) : Prop :=
  w.happened i = some (.evaluated model p.name) ∧
    ∃ s ∈ p.subscriptions, ∃ j, i = j + 1 ∧ w.CallsAt began s j

/-- A dispatch of the event of the subscription goes by turns, and calls nobody but in them.  The
turn of the property comes if no listener fails.  If the property is still bound then, its getter
is called by the dispatch just once, and if not, not at all. -/
def Property.IsEvaluatedBy (model : Ref .model) (p : Property σ) (s : Subscription) (value : Json)
    (begun : State σ) (last : World σ) : Prop :=
  ∃ nested turns ended t,
    (Run.dispatch (nested + 1) (s.signal value)).result begun = (ended, t) ∧
    t.world.Before last ∧
    Delivers (Run.dispatch nested) (s.signal value) begun.world.journal.length
      (Run.listeners begun.world (s.signal value))
      (begun.alter (.happen (.dispatched (s.signal value)))) turns ended t ∧
    last.calls begun.world.journal.length = t.world.calls begun.world.journal.length ∧
    (ended = .ok () → ∃ turn ∈ turns, turn.listener = s.id) ∧
    ((∃ turn ∈ turns, turn.listener = s.id ∧ turn.state.world.Binds model p) →
      ∃! i, last.ReevaluatesAt model p begun.world.journal.length i) ∧
    ((∀ turn ∈ turns, turn.listener = s.id → ¬ turn.state.world.Binds model p) →
      ∀ i, ¬ last.ReevaluatesAt model p begun.world.journal.length i)

/-- How often the getter of a property is called in a run that has passed these moments and got to
this world, since one of them at which the property was bound. -/
structure Property.IsEvaluatedOnce (model : Ref .model) (p : Property σ) (before : List (Moment σ))
    (first : Moment σ) (after : List (Moment σ)) (last : World σ) : Prop where
  /-- It listens once for each of its dependencies. -/
  captured : p.subscriptions.map (·.dependency) = p.dependencies ∧ p.dependencies.Nodup
  /-- It is called once for each dispatch of a dependency that begins while the property is bound
  and reaches it still bound. -/
  once : ∀ s ∈ p.subscriptions, ∀ value begun,
    ⟨.dispatching (s.signal value), begun⟩ ∈ before ++ first :: after →
    begun.world.Binds model p → p.IsEvaluatedBy model s value begun last
  /-- It is called at no other time, until properties of the model are bound anew. -/
  only : ∀ i, first.state.world.journal.length ≤ i →
    (∀ m ∈ first :: after, ∀ definitions, m.point = .making (.bindComputed model definitions) →
      i < m.state.world.journal.length) →
    last.happened i = some (.evaluated model p.name) →
    ∃ s ∈ p.subscriptions, ∃ value begun,
      ⟨.dispatching (s.signal value), begun⟩ ∈ before ++ first :: after ∧
      begun.world.Binds model p ∧ last.ReevaluatesAt model p begun.world.journal.length i
  /-- Once the property is released it is never called again, by whatever dispatch. -/
  released : ∀ m ∈ first :: after, m.Releases model ∨ ¬ m.state.world.Binds model p →
    ∀ began i, m.state.world.journal.length ≤ i → ¬ last.ReevaluatesAt model p began i

namespace Reaction

variable {model : Ref .model} {w : World σ}

theorem evaluates_of_binds {p : Property σ} (binds : w.Binds model p) :
    (Reaction.refresh model p.name).evaluates w = some (model, p.name) := by
  obtain ⟨m, q, present, found, -⟩ := binds
  simp [evaluates, present, found]

/-- Only who refreshes a property evaluates it, and only if that is bound. -/
theorem of_evaluates {reaction : Reaction} {name : String}
    (evaluates : reaction.evaluates w = some (model, name)) :
    reaction = .refresh model name ∧
      ∃ m q, w.models.get? model = some m ∧ m.property? name = some q := by
  cases reaction with
  | refresh other property =>
      rw [Reaction.evaluates] at evaluates
      split at evaluates
      · rename_i bound
        cases evaluates
        obtain ⟨q, found⟩ := Option.isSome_iff_exists.mp bound
        obtain ⟨m, present, found⟩ := Option.bind_eq_some_iff.mp found
        exact ⟨rfl, m, q, present, found⟩
      · cases evaluates
  | _ => cases evaluates

end Reaction

/-- An evaluation belongs to properties that are bound, or to one that is refreshed. -/
theorem Moment.Evaluates.bound_or_refreshed {m : Moment σ} {model : Ref .model} {name : String}
    {i : Nat} (evaluates : m.Evaluates model name i) :
    (∃ definitions, m.point = .making (.bindComputed model definitions) ∧
      m.state.world.journal.length ≤ i) ∨
    ∃ signal began id, m.point = .calling signal began id (.refresh model name) ∧
      i = m.state.world.journal.length ∧
      ∃ row q, m.state.world.models.get? model = some row ∧ row.property? name = some q := by
  obtain ⟨point, s⟩ := m
  cases point with
  | making call =>
      cases call with
      | bindComputed owner definitions =>
          obtain ⟨rfl, late, -⟩ := evaluates
          exact Or.inl ⟨definitions, rfl, late⟩
      | _ => exact evaluates.elim
  | calling signal began id reaction =>
      obtain ⟨rfl, found⟩ := Reaction.of_evaluates evaluates.1
      exact Or.inr ⟨signal, began, id, rfl, evaluates.2, found⟩
  | _ => exact evaluates.elim

/-- No property listens to the edits of an element. -/
theorem Run.not_refresh_of_edit {w : World σ} {document : Ref .document} {element : Ref .element}
    {id : Nat} {model : Ref .model} {name : String} :
    (id, .refresh model name) ∉ Run.listeners w (.edit document element) := by
  intro listed
  rw [Run.listeners] at listed
  split at listed
  · obtain ⟨⟨_, reaction⟩, -, same⟩ := List.mem_map.mp listed
    cases reaction <;> cases same
  · cases listed

/-- What comes at a moment or after it comes at the end of what was passed since. -/
theorem since_of_mem {α : Type} {passed before after : List α} {first a : α}
    (split : passed = before ++ first :: after) (among : a ∈ first :: after) :
    ∃ earlier rest mid, passed = earlier ++ a :: rest ∧
      earlier ++ [a] = before ++ first :: mid ∧ first :: after = first :: mid ++ rest := by
  obtain ⟨front, rest, same⟩ := List.append_of_mem among
  cases front with
  | nil =>
      obtain ⟨rfl, rfl⟩ := List.cons.inj same
      exact ⟨before, after, [], split, rfl, rfl⟩
  | cons other front =>
      obtain ⟨rfl, rfl⟩ := List.cons.inj same
      exact ⟨before ++ first :: front, rest, front ++ [a], by simp [split], by simp, by simp⟩

namespace Passage

variable {client : σ} {passed before after : List (Moment σ)} {last : State σ} {m first : Moment σ}
  {model : Ref .model} {p : Property σ} {s : Subscription} (run : Passage client passed last)

include run

/-- A property listens once for each dependency. -/
theorem captured (listed : m ∈ passed) {row : Model σ}
    (present : m.state.world.models.get? model = some row) (among : p ∈ row.properties) :
    p.subscriptions.map (·.dependency) = p.dependencies ∧ p.dependencies.Nodup :=
  let ⟨_, balanced⟩ := run.balanced listed
  balanced.models model row present p among

/-- When a listener of a bound property is called, the getter is called right after. -/
theorem evaluates_of_answers (split : passed = before ++ m :: after) {began : Nat}
    {reaction : Reaction} (answers : m.Answers before began s reaction) (listed : first ∈ passed)
    (binds : first.state.world.Binds model p) (held : s ∈ p.subscriptions) :
    m.Evaluates model p.name m.state.world.journal.length ∧
      last.world.happened m.state.world.journal.length = some (.evaluated model p.name) := by
  obtain ⟨bound, rfl⟩ := run.binds_of_answers split answers listed binds held
  obtain ⟨⟨value, begun, point, -⟩, -⟩ := answers
  have evaluates := Reaction.evaluates_of_binds bound
  obtain ⟨i, length, -, evaluated⟩ := (run.course.tells m
    (split ▸ List.mem_append_right _ List.mem_cons_self)).called _ _ _ _ point
  refine ⟨?_, length ▸ evaluated _ _ evaluates⟩
  rw [Moment.Evaluates, point]
  exact ⟨evaluates, rfl⟩

theorem reevaluates_of_call {began j : Nat} (calls : last.world.CallsAt began s j)
    (listed : first ∈ passed) (binds : first.state.world.Binds model p) (held : s ∈ p.subscriptions) :
    last.world.ReevaluatesAt model p began (j + 1) := by
  obtain ⟨-, before, m, after, reaction, split, length, answers⟩ := run.call_made calls
  obtain ⟨-, evaluated⟩ := run.evaluates_of_answers split answers listed binds held
  exact ⟨length ▸ evaluated, s, held, j, rfl, calls⟩

/-- A dispatch that calls the getter has called the listener for its event, and none for another. -/
theorem call_of_reevaluates {began i : Nat} {value : Json}
    (told : last.world.happened began = some (.dispatched (s.signal value)))
    (held : s ∈ p.subscriptions) (apart : (p.subscriptions.map (·.dependency)).Nodup)
    (evaluated : last.world.ReevaluatesAt model p began i) :
    ∃ j, i = j + 1 ∧ began ≤ j ∧ last.world.happened j = some (.called began s.id) := by
  obtain ⟨-, s', held', j, rfl, calls⟩ := evaluated
  have late := (run.call_made calls).1
  obtain ⟨⟨value', told'⟩, called⟩ := calls
  have same : s'.signal value' = s.signal value := by
    rw [told] at told'
    injection told' with told'
    injection told' with told'
    exact told'.symm
  obtain rfl : s' = s := List.inj_on_of_nodup_map apart held' held (dependency_of_signal same)
  exact ⟨j, rfl, late.le, called⟩

/-- A dispatch calls the getter of a bound property once if it reaches the property still bound,
and else not at all. -/
theorem evaluated_by {value : Json} {begun : State σ}
    (dispatched : ⟨.dispatching (s.signal value), begun⟩ ∈ passed)
    (binds : begun.world.Binds model p) (held : s ∈ p.subscriptions)
    (apart : (p.subscriptions.map (·.dependency)).Nodup) :
    p.IsEvaluatedBy model s value begun last.world := by
  have balanced := run.balanced dispatched
  have listening := balanced.registered binds held
  obtain ⟨nested, turns, ended, t, worked, goesOn, delivers, reach, made, ascending, same⟩ :=
    run.delivers dispatched (by obtain ⟨_, present, -⟩ := listening; exact ⟨_, present⟩)
  have told := (run.course.tells _ dispatched).dispatched _ rfl
  -- when its turn comes the listener is registered if its property is bound, and only then
  have stands : ∀ turn ∈ turns, turn.listener = s.id →
      (turn.isRegistered (s.signal value) = true ↔ turn.state.world.Binds model p) := by
    intro turn among mine
    rw [Turn.isRegistered, mine]
    exact (reach turn among).isRegistered_iff balanced binds held value
  refine ⟨nested, turns, ended, t, worked, goesOn, delivers, same, fun well => ?_, ?_,
    fun missed i evaluated => ?_⟩
  · obtain ⟨turn, among, entry⟩ :=
      delivers.turn_of_mem well (Follower.mem_listeners_event.mpr listening)
    exact ⟨turn, among, congrArg Prod.fst entry⟩
  · rintro ⟨turn, among, mine, bound⟩
    have called : s.id ∈ last.world.calls begun.world.journal.length := by
      rw [made]
      exact List.mem_map.mpr
        ⟨turn, List.mem_filter.mpr ⟨among, (stands turn among mine).mpr bound⟩, mine⟩
    obtain ⟨j, late, called⟩ := World.mem_calls.mp called
    refine ⟨j + 1, run.reevaluates_of_call ⟨⟨value, told⟩, called⟩ dispatched binds held,
      fun i again => ?_⟩
    obtain ⟨j', rfl, late', called'⟩ := run.call_of_reevaluates told held apart again
    rw [World.called_once ascending late late' called called']
  · obtain ⟨j, rfl, late, called⟩ := run.call_of_reevaluates told held apart evaluated
    have among := World.mem_calls.mpr ⟨j, late, called⟩
    rw [made] at among
    obtain ⟨turn, listed, mine⟩ := List.mem_map.mp among
    obtain ⟨listed, registered⟩ := List.mem_filter.mp listed
    exact missed turn listed mine ((stands turn listed mine).mp registered)

/-- Until properties of the model are bound anew, whatever has the name of the property is it, but
for its value. -/
theorem shape_since (split : passed = before ++ first :: after) {row row' : Model σ}
    (present : first.state.world.models.get? model = some row)
    (distinct : ∀ q ∈ row.properties, q.name = p.name → q = p) (among : m ∈ first :: after)
    (once : ∀ m' ∈ first :: after, ∀ definitions,
      m'.point = .making (.bindComputed model definitions) →
      m.state.world.journal.length < m'.state.world.journal.length)
    (present' : m.state.world.models.get? model = some row') :
    ∀ q ∈ row'.properties, q.name = p.name → q.shape = p.shape := by
  obtain ⟨earlier, rest, mid, here, since, all⟩ := since_of_mem split among
  have kept : row.SameShape row' ∨ row'.properties = [] := by
    refine (run.upTo here).1.row_since since present (fun m' listed definitions binding => ?_) present'
    have later := once m' (all ▸ List.mem_append_left _ listed) definitions binding
    have sooner : m' ∈ earlier ++ [m] := since ▸ List.mem_append_right _ listed
    rcases List.mem_append.mp sooner with early | same
    · have less := ((run.ordered here).1 m' early).1.length_le
      omega
    · rw [List.mem_singleton.mp same] at later
      omega
  intro q listed named
  rcases kept with same | none
  · obtain ⟨q', listed', shape⟩ := same.symm.mem listed
    rw [← distinct q' listed' ((Property.name_of_shape shape).trans named), shape]
  · rw [none] at listed
    cases listed

/-- Until properties of the model are bound anew, the getter of one with a name of its own is called
by dispatches of its dependencies only, which began when it was bound. -/
theorem evaluated_only (split : passed = before ++ first :: after) {row : Model σ}
    (present : first.state.world.models.get? model = some row)
    (distinct : ∀ q ∈ row.properties, q.name = p.name → q = p) {i : Nat}
    (late : first.state.world.journal.length ≤ i)
    (once : ∀ m ∈ first :: after, ∀ definitions,
      m.point = .making (.bindComputed model definitions) → i < m.state.world.journal.length)
    (happened : last.world.happened i = some (.evaluated model p.name)) :
    ∃ s ∈ p.subscriptions, ∃ value begun, ⟨.dispatching (s.signal value), begun⟩ ∈ passed ∧
      begun.world.Binds model p ∧
      last.world.ReevaluatesAt model p begun.world.journal.length i := by
  obtain ⟨m, listed, evaluates⟩ := run.course.evaluated (Nat.zero_le _) happened
  -- it belongs to a moment that does not come before
  have among : m ∈ first :: after := by
    have listed := split ▸ listed
    rcases List.mem_append.mp listed with early | here
    · have earlier := ((run.ordered split).1 m early).2 _ _ _ evaluates
      omega
    · exact here
  rcases evaluates.bound_or_refreshed with ⟨definitions, binding, from_⟩ |
    ⟨signal, began, id, point, rfl, row', q, present', found⟩
  · have later := once m among definitions binding
    omega
  have own := run.shape_since split present distinct among once present'
  have binds : m.state.world.Binds model p := ⟨row', q, present', found,
    own q (Model.mem_of_property? found) (Model.name_of_property? found)⟩
  cases signal with
  | edit document element =>
      obtain ⟨⟨begun, -, -, hearing⟩, -⟩ := run.trail.calls m listed _ _ _ _ point
      exact absurd hearing Run.not_refresh_of_edit
  | event hub event =>
      obtain ⟨earlier, rest, here⟩ := List.append_of_mem listed
      have answers := run.answers here point
      obtain ⟨_, there, holder, held, named, mine⟩ :=
        (run.balanced listed).holder answers.registered
      cases present'.symm.trans there
      rw [Property.subscriptions_of_shape (own holder held named)] at mine
      obtain ⟨⟨value, begun, _, dispatched, tag, listening⟩, -⟩ := answers
      have begins : ⟨.dispatching (Subscription.signal ⟨hub, id, event.name⟩ value), begun⟩ ∈ passed :=
        here ▸ List.mem_append_left _ dispatched
      obtain ⟨i, length, called, -⟩ := (run.course.tells m listed).called _ _ _ _ point
      refine ⟨_, mine, value, begun, begins, ?_, happened, _, mine, i, length, ?_, ?_⟩
      · exact ((run.lasting here).1 _ dispatched).back (run.balanced begins) binds mine listening
      · exact ⟨value, (run.course.tells _ begins).dispatched _ rfl⟩
      · rw [← tag]
        exact called

/-- Once a property is released its getter is never called again. -/
theorem never_evaluated (listed : first ∈ passed) (binds : first.state.world.Binds model p)
    (split : passed = before ++ m :: after)
    (since : first ∈ before ++ [m])
    (released : m.Releases model ∨ ¬ m.state.world.Binds model p) {began i : Nat}
    (late : m.state.world.journal.length ≤ i) : ¬ last.world.ReevaluatesAt model p began i := by
  rintro ⟨evaluated, s, held, j, rfl, calls⟩
  obtain ⟨-, earlier, c, rest, reaction, here, length, answers⟩ := run.call_made calls
  obtain ⟨evaluates, -⟩ := run.evaluates_of_answers here answers listed binds held
  have among : c ∈ before ++ m :: after := split ▸ here ▸ List.mem_append_right _ List.mem_cons_self
  rcases List.mem_append.mp among with early | since_
  · -- its evaluation would have been noted before
    have noted := ((run.ordered split).1 c early).2 _ _ _ evaluates
    omega
  have gone : Gone c.state.world.hubs s := by
    by_cases still : m.state.world.Binds model p
    · obtain ⟨_, _, _, here, upTo, -⟩ := since_of_mem split since_
      have trail := (run.upTo here).1
      have called : c.awaited = none := by
        obtain ⟨⟨_, _, point, -⟩, -⟩ := answers
        rw [Moment.awaited, point]
      rw [called] at trail
      exact trail.gone_since upTo (released.resolve_right (not_not_intro still))
        (run.balanced (split ▸ List.mem_append_right _ List.mem_cons_self)) still held
    · have was : first ∈ before := (List.mem_append.mp since).resolve_right fun same =>
        still (List.mem_singleton.mp same ▸ binds)
      have gone := (((run.lasting split).1 first was).onward (run.balanced listed) binds).resolve_left
        still s held
      rcases List.mem_cons.mp since_ with rfl | later
      · exact gone
      · exact gone.lasts ((run.lasting split).2 c later).hubs
  exact gone.not_registered answers.registered

end Passage

/-- In every run in which clients name only what is there, since any moment at which a computed
property is bound under a name of its own: its getter is called once for each dispatch of one of
its dependencies that begins while it is bound and reaches it still bound, and at no other time
until properties of its model are bound anew; and once it is released it is never called again.
No getter is called anywhere in the run but by a listener that refreshes its property or where
properties are bound. -/
theorem evaluated_once (depth : Nat) (program : Program σ) (client : σ)
    (careful : ∀ m ∈ Run.moments depth program ⟨.empty, [], client⟩, m.IsCareful)
    {before after : List (Moment σ)} {first : Moment σ}
    (split : Run.moments depth program ⟨.empty, [], client⟩ = before ++ first :: after)
    {model : Ref .model} {row : Model σ} {p : Property σ}
    (present : first.state.world.models.get? model = some row) (listed : p ∈ row.properties)
    (distinct : ∀ q ∈ row.properties, q.name = p.name → q = p) :
    p.IsEvaluatedOnce model before first after
      ((Run.run depth program).result ⟨.empty, [], client⟩).2.world ∧
    ∀ other name i, ((Run.run depth program).result ⟨.empty, [], client⟩).2.world.happened i =
      some (.evaluated other name) → ∃ m ∈ before ++ first :: after, m.Evaluates other name i := by
  have run : Passage client (Run.moments depth program ⟨.empty, [], client⟩)
      ((Run.run depth program).result ⟨.empty, [], client⟩).2 :=
    ⟨Run.trail_moments depth program _, Run.course_moments depth program _, careful⟩
  rw [split] at run
  have here : first ∈ before ++ first :: after := List.mem_append_right _ List.mem_cons_self
  obtain ⟨captured, apart⟩ := run.captured here present listed
  have binds : first.state.world.Binds model p := by
    rcases found : row.property? p.name with _ | q
    · have none := List.find?_eq_none.mp found p listed
      simp at none
    · obtain rfl := distinct q (Model.mem_of_property? found) (Model.name_of_property? found)
      exact ⟨row, q, present, found, rfl⟩
  refine ⟨⟨⟨captured, apart⟩, fun s held value begun dispatched bound =>
      run.evaluated_by dispatched bound held (captured ▸ apart),
    fun i late once happened => run.evaluated_only rfl present distinct late once happened,
    fun m among released began i late => ?_⟩,
    fun other name i happened => run.course.evaluated (Nat.zero_le _) happened⟩
  obtain ⟨earlier, rest, mid, split', since, -⟩ := since_of_mem rfl among
  refine run.never_evaluated here binds split' ?_ released late
  rw [since]
  exact List.mem_append_right _ List.mem_cons_self

/-! ## Runs -/

namespace Sample

/-- The getter reads the name twice, and the event that announces it is declared besides. -/
def doubled : List (String × Definition Unit) :=
  [("doubled", ⟨some (.read none true "name" fun first => .read none true "name" fun second =>
      .done (.list [first, second])), none, true, [⟨⟨0⟩, changeOf "name"⟩]⟩)]

/-- A listener that comes before the property releases it once the name is Eve. -/
def guarded : Program Unit :=
  .call (.openModel [("name", .text "Ada")]) fun (model : Ref .model) =>
    .subscribe ⟨0⟩ (changeOf "name") (fun event =>
      if event.value.displayText = "Eve" then .call (.unbindComputed model) fun _ => .done
      else .done) fun _ =>
    .call (.bindComputed model doubled) fun _ =>
    .call (.write model [("name", .text "Bob")]) fun _ =>
    .call (.write model [("name", .text "Eve")]) fun _ =>
    .call (.write model [("name", .text "Cid")]) fun _ => .done

def guardedMoments : List (Moment Unit) :=
  Run.moments 5 guarded ⟨.empty, [], ()⟩

def doubledBound : Moment Unit :=
  guardedMoments.get ⟨4, by decide +kernel⟩

def guardedEnd : World Unit :=
  ((Run.run 5 guarded).result ⟨.empty, [], ()⟩).2.world

/-- Where the journal says that a getter was called. -/
def evaluations (w : World Unit) : List Nat :=
  (List.range w.journal.length).filter fun i =>
    match w.happened i with
    | some (.evaluated _ _) => true
    | _ => false

end Sample

open Sample in
/-- The property depends on the name once.  Its getter is called when it is bound and when the name
becomes Bob; the dispatch that tells of Eve does not reach it any more. -/
theorem evaluated_once_guarded :
    (∃ p : Property Unit, p.dependencies = [⟨⟨0⟩, changeOf "name"⟩] ∧
      p.IsEvaluatedOnce ⟨0⟩ (guardedMoments.take 4) doubledBound (guardedMoments.drop 5) guardedEnd) ∧
      evaluations guardedEnd = [0, 5] := by
  refine ⟨?_, by decide +kernel⟩
  have careful : ∀ m ∈ Run.moments 5 guarded ⟨.empty, [], ()⟩, m.IsCareful := by decide +kernel
  have split : Run.moments 5 guarded ⟨.empty, [], ()⟩ =
      guardedMoments.take 4 ++ doubledBound :: guardedMoments.drop 5 := by
    rw [doubledBound, List.get_eq_getElem, List.getElem_cons_drop, List.take_append_drop]
    rfl
  have one : (doubledBound.state.world.models.get? ⟨0⟩).map
      (fun m => m.properties.map (·.dependencies)) = some [[⟨⟨0⟩, changeOf "name"⟩]] := by
    decide +kernel
  obtain ⟨row, present, same⟩ := Option.map_eq_some_iff.mp one
  obtain ⟨p, alone, depends⟩ := List.map_eq_singleton_iff.mp same
  refine ⟨p, depends, (evaluated_once 5 guarded () careful split present (by simp [alone])
    fun q listed _ => ?_).1⟩
  rw [alone] at listed
  exact List.mem_singleton.mp listed

end LiveBinding
