/-
# LiveBinding.Proofs.Delivery -- whom a dispatch calls

Listeners may subscribe, cancel, dispatch and fail while a dispatch goes over them.
Still it calls just those that were registered when it began and are registered when
their turn comes, in the order of their subscription and each once, and it ends with the
first one that fails (`Delivers`).

A turn is in the state that the turns before it left.  Calls are told apart in the
journal by where their dispatch began: whatever is dispatched during a turn began later
(`Trail.late`), so the calls under one tag are the calls of one dispatch.

Identifiers only ascend and are never given out twice, along the whole of a run
(`Trail.lasts`).  So a listener that is gone is never called again, and one that is
subscribed during a dispatch is not called by it.
-/
import LiveBinding.Proofs.Run.Past

namespace LiveBinding

set_option autoImplicit false

variable {σ : Type}

/-! ## Calls in the journal -/

def Entry.calledBy (began : Nat) (entry : Entry) : Option Nat :=
  match entry.happening.call? with
  | some (tag, listener) => if tag = began then some listener else none
  | none => none

/-- Whom the dispatch called itself that began at an entry of the journal, in order. -/
def World.calls (began : Nat) (w : World σ) : List Nat :=
  (w.journal.drop began).filterMap (Entry.calledBy began)

/-- No listener was called by a dispatch that had begun before an entry. -/
def Entry.IsLate (first : Nat) (entry : Entry) : Prop :=
  ∀ began listener, entry.happening.call? = some (began, listener) → first ≤ began

theorem Entry.isLate_of_plain {first : Nat} {entry : Entry} (plain : entry.happening.call? = none) :
    entry.IsLate first := by
  intro began listener called
  rw [plain] at called
  cases called

namespace World

variable {v w : World σ} {began : Nat}

theorem journal_subscribeAll (model : Ref .model) (name : String) (ds : List Dependency)
    (w : World σ) : (subscribeAll model name ds w).2.journal = w.journal := by
  induction ds generalizing w with
  | nil => rfl
  | cons d rest ih =>
      exact (ih _).trans (journal_subscribe d.hub d.event (.refresh model name) w)

/-- No step but a call notes a call. -/
theorem journal_step {careful attaching : Prop} (step : v.Step careful attaching w) :
    v.Before w ∧ v.Notes (fun entry => entry.happening.call? = none) w := by
  have still : ∀ {w : World σ}, w.journal = v.journal →
      v.Before w ∧ v.Notes (fun entry => entry.happening.call? = none) w :=
    fun same => ⟨before_of_eq same, notes_of_eq same⟩
  have noted : ∀ {w : World σ} {added : List Entry}, w.journal = v.journal ++ added →
      (∀ entry ∈ added, entry.happening.call? = none) →
      v.Before w ∧ v.Notes (fun entry => entry.happening.call? = none) w := by
    intro w added same plain
    refine ⟨⟨added, same.symm⟩, fun entry listed => plain entry ?_⟩
    rwa [same, List.drop_left] at listed
  cases step with
  | note added plain spans => exact noted rfl plain
  | release handle => exact still (journal_release handle v)
  | listen document element callback => exact still (journal_listen _ _ _ v)
  | install model p => exact still (journal_subscribeAll model p.name p.dependencies v)
  | unbindComputed model =>
      unfold unbindComputed
      split
      · exact still rfl
      · split
        · exact still rfl
        · refine noted ((journal_cancelAll _ _).trans rfl) fun entry listed => ?_
          rw [List.mem_singleton.mp listed]
          rfl
  | @fit may binding b present live editable name operator c =>
      obtain ⟨entry, message, same⟩ := journal_fit binding b editable name operator c v
      refine noted same fun entry' listed => ?_
      rw [List.mem_singleton.mp listed, message]
      rfl
  | dispose binding => exact still (journal_dispose binding v)
  | close present => exact still (journal_retire _ _)
  | _ => exact still rfl

theorem Steps.journal {careful attaching : Prop} (steps : v.Steps careful attaching w) :
    v.Before w ∧ v.Notes (fun entry => entry.happening.call? = none) w :=
  steps.keep (fun w => v.Before w ∧ v.Notes (fun entry => entry.happening.call? = none) w)
    (fun step ⟨before, notes⟩ =>
      have ⟨beforeThen, notesThen⟩ := journal_step step
      ⟨before.trans beforeThen, notes.trans before beforeThen notesThen⟩)
    ⟨.refl v, notes_of_eq rfl⟩

/-- What is called in the name of others is not called in the name of this one. -/
theorem calls_of_other (before : v.Before w)
    (other : v.Notes (fun entry => ∀ listener, entry.happening.call? ≠ some (began, listener)) w)
    (noted : began ≤ v.journal.length) : w.calls began = v.calls began := by
  obtain ⟨added, same⟩ := before
  have none : added.filterMap (Entry.calledBy began) = [] := by
    refine List.filterMap_eq_nil_iff.mpr fun entry listed => ?_
    have others := other entry (by rwa [← same, List.drop_left])
    unfold Entry.calledBy
    split
    · rename_i tag listener called
      refine if_neg ?_
      rintro rfl
      exact others listener called
    · rfl
  rw [calls, calls, ← same, List.drop_append_of_le_length noted, List.filterMap_append, none,
    List.append_nil]

/-- Later dispatches call nobody in the name of one that began before. -/
theorem calls_of_late {first : Nat} (before : v.Before w) (late : v.Notes (Entry.IsLate first) w)
    (earlier : began < first) (noted : first ≤ v.journal.length) : w.calls began = v.calls began :=
  calls_of_other before
    (late.mono fun _ isLate listener called => absurd (isLate began listener called) (by omega))
    (by omega)

theorem calls_happen_called {listener : Nat} (noted : began < w.journal.length) :
    (w.happen (.called began listener)).calls began = w.calls began ++ [listener] := by
  rw [calls, calls, happen, List.drop_append_of_le_length (Nat.le_of_lt noted),
    List.filterMap_append]
  simp [Entry.calledBy, Happening.call?]

end World

/-! ## What a trail tells -/

namespace Trail

variable {start s : State σ} {past : List (Moment σ)} {awaited : Option (Call σ)}

/-- Whatever is called on the way is called by dispatches that began on the way. -/
theorem late (trail : Trail start past awaited s) :
    start.world.Before s.world ∧
      start.world.Notes (Entry.IsLate start.world.journal.length) s.world ∧
      ∀ m ∈ past, start.world.journal.length ≤ m.state.world.journal.length := by
  have marked : ∀ {past : List (Moment σ)} {point : Point σ} {t : State σ},
      (∀ m ∈ past, start.world.journal.length ≤ m.state.world.journal.length) →
      start.world.Before t.world →
      ∀ m ∈ past ++ [⟨point, t⟩], start.world.journal.length ≤ m.state.world.journal.length := by
    intro past point t earlier before m' listed
    rcases List.mem_append.mp listed with old | new
    · exact earlier m' old
    · rw [List.mem_singleton.mp new]
      exact before.length_le
  have stepped : ∀ {attaching : Prop} {v w : World σ}, v.Steps False attaching w →
      start.world.Before v →
      start.world.Notes (Entry.IsLate start.world.journal.length) v →
      start.world.Before w ∧ start.world.Notes (Entry.IsLate start.world.journal.length) w := by
    intro attaching v w steps before notes
    obtain ⟨beforeThen, notesThen⟩ := steps.journal
    exact ⟨before.trans beforeThen, notes.trans before beforeThen
      (notesThen.mono fun _ => Entry.isLate_of_plain)⟩
  have still : ∀ {v w : World σ}, w.journal = v.journal → start.world.Before v →
      start.world.Notes (Entry.IsLate start.world.journal.length) v →
      start.world.Before w ∧ start.world.Notes (Entry.IsLate start.world.journal.length) w := by
    intro v w same before notes
    exact ⟨before.trans (World.before_of_eq same),
      notes.trans before (World.before_of_eq same) (World.notes_of_eq same)⟩
  refine trail.invariant False
    (fun past s => start.world.Before s.world ∧
      start.world.Notes (Entry.IsLate start.world.journal.length) s.world ∧
      ∀ m ∈ past, start.world.journal.length ≤ m.state.world.journal.length)
    ⟨.refl _, World.notes_of_eq rfl, fun _ none => absurd none List.not_mem_nil⟩ ?_ ?_ ?_ ?_ ?_ ?_
    False.elim fun _ _ => False.elim
  · rintro past s t steps ⟨before, notes, earlier⟩
    obtain ⟨beforeThen, notesThen⟩ := stepped steps before notes
    exact ⟨beforeThen, notesThen, earlier⟩
  · rintro past s point - ⟨before, notes, earlier⟩
    exact ⟨before, notes, marked earlier before⟩
  · rintro past s hub event callback ⟨before, notes, earlier⟩
    obtain ⟨beforeThen, notesThen⟩ := still (World.journal_subscribe hub event _ s.world) before notes
    exact ⟨beforeThen, notesThen, marked earlier beforeThen⟩
  · rintro past s subscription ⟨before, notes, earlier⟩
    obtain ⟨beforeThen, notesThen⟩ := still (w := s.world.withdraw subscription) rfl before notes
    exact ⟨beforeThen, notesThen, marked earlier beforeThen⟩
  · rintro past s t call fire answer - - - steps ⟨before, notes, earlier⟩
    obtain ⟨beforeThen, notesThen⟩ := stepped steps before notes
    exact ⟨beforeThen, notesThen, marked earlier beforeThen⟩
  · rintro past s first signal id reaction dispatched - - ⟨before, notes, earlier⟩
    have happened := World.before_happen (.called first.world.journal.length id) s.world
    refine ⟨before.trans happened, notes.trans before happened ?_,
      marked earlier (before.trans happened)⟩
    refine World.notes_happen.mpr fun tag listener called => ?_
    cases called
    exact earlier _ dispatched

end Trail

/-! ## Turns -/

/-- A listener whose turn it is, and the state in which it is its turn. -/
structure Turn (σ : Type) where
  listener : Nat
  reaction : Reaction
  state : State σ

namespace Turn

def entry (turn : Turn σ) : Nat × Reaction := (turn.listener, turn.reaction)

def isRegistered (signal : Signal) (turn : Turn σ) : Bool :=
  Run.isRegistered turn.state.world signal turn.listener

/-- How the turn ends: a listener that is still registered is called, one that is not is
passed over. -/
def result (fire : Fire σ) (signal : Signal) (began : Nat) (turn : Turn σ) :
    Except Halt Unit × State σ :=
  if turn.isRegistered signal then
    (Run.react fire (Run.eventOf signal) turn.reaction).result
      (turn.state.alter (.happen (.called began turn.listener)))
  else (.ok (), turn.state)

/-- Each turn comes in the state that the one before it left, the first in the first
state. -/
def Follow (fire : Fire σ) (signal : Signal) (began : Nat) :
    List (Turn σ) → State σ → State σ → Prop
  | [], s, t => t = s
  | turn :: rest, s, t => turn.state = s ∧ Follow fire signal began rest (turn.result fire signal began).2 t

end Turn

/-- How a dispatch goes that has taken down listeners: it ends in a state, well or not, after
these turns. -/
structure Delivers (fire : Fire σ) (signal : Signal) (began : Nat) (listed : List (Nat × Reaction))
    (s : State σ) (turns : List (Turn σ)) (ended : Except Halt Unit) (t : State σ) : Prop where
  /-- Turns are taken in the order of subscription. -/
  ordered : turns.map Turn.entry <+: listed
  follow : Turn.Follow fire signal began turns s t
  /-- Just those are called who are registered when it is their turn. -/
  calls : t.world.calls began =
    s.world.calls began ++ (turns.filter (·.isRegistered signal)).map (·.listener)
  /-- It ends well after all turns have, or with the first failure. -/
  cut : (ended = .ok () ∧ turns.map Turn.entry = listed ∧
      ∀ turn ∈ turns, (turn.result fire signal began).1 = .ok ()) ∨
    ∃ before last halt, turns = before ++ [last] ∧ last.isRegistered signal = true ∧
      ended = .error halt ∧ (last.result fire signal began).1 = .error halt ∧
      ∀ turn ∈ before, (turn.result fire signal began).1 = .ok ()

namespace Run

/-- What a listener does is done by dispatches that begin then. -/
theorem react_late (depth : Nat) (event : Event) (reaction : Reaction) (s : State σ) :
    s.world.Before ((react (dispatch depth) event reaction).result s).2.world ∧
      s.world.Notes (Entry.IsLate s.world.journal.length)
        ((react (dispatch depth) event reaction).result s).2.world :=
  have late := (trail_react (visits_dispatch s depth) event reaction .start).late
  ⟨late.1, late.2.1⟩

theorem turn_late (depth : Nat) (signal : Signal) {began : Nat} (turn : Turn σ)
    (noted : began < turn.state.world.journal.length) :
    began < ((turn.result (dispatch depth) signal began).2).world.journal.length ∧
      ((turn.result (dispatch depth) signal began).2).world.calls began =
        turn.state.world.calls began ++
          (if turn.isRegistered signal then [turn.listener] else []) := by
  unfold Turn.result
  by_cases registered : turn.isRegistered signal = true
  · rw [if_pos registered, if_pos registered]
    have happened := World.before_happen (.called began turn.listener) turn.state.world
    obtain ⟨before, late⟩ := react_late depth (eventOf signal) turn.reaction
      (turn.state.alter (.happen (.called began turn.listener)))
    have longer := happened.length_le
    refine ⟨Nat.lt_of_lt_of_le (Nat.lt_of_lt_of_le noted longer) before.length_le, ?_⟩
    rw [World.calls_of_late before late (Nat.lt_of_lt_of_le noted longer) (Nat.le_refl _),
      State.alter_world, World.calls_happen_called noted]
  · rw [if_neg registered, if_neg registered, List.append_nil]
    exact ⟨noted, rfl⟩

theorem result_deliver_turn (fire : Fire σ) (signal : Signal) (began : Nat) (turn : Turn σ)
    (rest : List (Nat × Reaction)) :
    (deliver fire signal began (turn.entry :: rest)).result turn.state =
      match turn.result fire signal began with
      | (.ok _, t) => (deliver fire signal began rest).result t
      | (.error halt, t) => (.error halt, t) := by
  obtain ⟨listener, reaction, s⟩ := turn
  rw [Turn.entry, deliver, result_world_bind, Turn.result]
  unfold Turn.isRegistered
  by_cases registered : isRegistered s.world signal listener = true
  · rw [if_pos registered, if_pos registered, result_alter_bind, result_bind]
    rcases (react fire (eventOf signal) reaction).result
      (s.alter (.happen (.called began listener))) with ⟨_ | _, _⟩ <;> rfl
  · rw [if_neg registered, if_neg registered]

theorem deliver_turns (depth : Nat) (signal : Signal) (began : Nat)
    (listed : List (Nat × Reaction)) {s : State σ} (noted : began < s.world.journal.length) :
    ∃ turns, Delivers (dispatch depth) signal began listed s turns
      ((deliver (dispatch depth) signal began listed).result s).1
      ((deliver (dispatch depth) signal began listed).result s).2 := by
  induction listed generalizing s with
  | nil => exact ⟨[], List.prefix_refl _, rfl, (List.append_nil _).symm, Or.inl ⟨rfl, rfl, nofun⟩⟩
  | cons first rest ih =>
      let turn : Turn σ := ⟨first.1, first.2, s⟩
      obtain ⟨longer, called⟩ := turn_late depth signal turn noted
      have split : (deliver (dispatch depth) signal began (first :: rest)).result s =
          match turn.result (dispatch depth) signal began with
          | (.ok _, t) => (deliver (dispatch depth) signal began rest).result t
          | (.error halt, t) => (.error halt, t) :=
        result_deliver_turn (dispatch depth) signal began turn rest
      rcases worked : turn.result (dispatch depth) signal began with ⟨halt | ⟨⟩, t⟩
      · rw [worked] at split called
        have registered : turn.isRegistered signal = true := by
          by_contra gone
          rw [Turn.result, if_neg gone] at worked
          cases worked
        rw [split]
        refine ⟨[turn], List.prefix_cons_inj _ |>.mpr List.nil_prefix, ?_, ?_, Or.inr ?_⟩
        · exact ⟨rfl, by rw [worked]; rfl⟩
        · rw [called, if_pos registered, List.filter_cons_of_pos registered]
          rfl
        · exact ⟨[], turn, halt, rfl, registered, rfl, by rw [worked], nofun⟩
      · rw [worked] at split longer called
        obtain ⟨turns, ordered, follow, calls, cut⟩ := ih longer
        rw [split]
        refine ⟨turn :: turns, List.prefix_cons_inj _ |>.mpr ordered, ?_, ?_, ?_⟩
        · exact ⟨rfl, by rw [worked]; exact follow⟩
        · rw [calls, called, List.append_assoc]
          congr 1
          by_cases registered : turn.isRegistered signal = true
          · rw [if_pos registered, List.filter_cons_of_pos registered]
            rfl
          · rw [if_neg registered, List.filter_cons_of_neg registered]
            rfl
        · have well : (turn.result (dispatch depth) signal began).1 = .ok () := by rw [worked]
          rcases cut with ⟨ended, all, each⟩ | ⟨before, last, halt, rfl, registered, facts, failed, each⟩
          · refine Or.inl ⟨ended, congrArg (first :: ·) all, ?_⟩
            exact List.forall_mem_cons.mpr ⟨well, each⟩
          · exact Or.inr ⟨turn :: before, last, halt, rfl, registered, facts, failed,
              List.forall_mem_cons.mpr ⟨well, each⟩⟩

/-- What a dispatch does, of an event on a hub that lists its listeners in order. -/
theorem dispatch_turns (depth : Nat) {hub : Ref .hub} {h : Hub} (event : Event) {s : State σ}
    (present : s.world.hubs.get? hub = some h) (ordered : h.Ordered) :
    ∃ turns ended t,
      (dispatch (depth + 1) (.event hub event)).result s = (ended, t) ∧
      Delivers (dispatch depth) (.event hub event) s.world.journal.length
        ((h.listening event.name).map fun l => (l.id, l.reaction))
        (s.alter (.happen (.dispatched (.event hub event)))) turns ended t ∧
      t.world.calls s.world.journal.length =
        (turns.filter (·.isRegistered (.event hub event))).map (·.listener) ∧
      (t.world.calls s.world.journal.length).Pairwise (· < ·) ∧
      ∀ id ∈ t.world.calls s.world.journal.length, id < h.nextId := by
  have listed : listeners s.world (.event hub event) =
      (h.listening event.name).map fun l => (l.id, l.reaction) := by
    rw [listeners, present]
  have noted : s.world.journal.length <
      (s.alter (.happen (.dispatched (.event hub event)))).world.journal.length := by
    simp [World.happen]
  obtain ⟨turns, delivers⟩ := deliver_turns depth (.event hub event) s.world.journal.length
    ((h.listening event.name).map fun l => (l.id, l.reaction)) noted
  have worked : (dispatch (depth + 1) (.event hub event)).result s =
      (deliver (dispatch depth) (.event hub event) s.world.journal.length
        ((h.listening event.name).map fun l => (l.id, l.reaction))).result
        (s.alter (.happen (.dispatched (.event hub event)))) := by
    rw [dispatch, result_world_bind, result_alter_bind, listed]
  rcases ran : (deliver (dispatch depth) (.event hub event) s.world.journal.length
    ((h.listening event.name).map fun l => (l.id, l.reaction))).result
    (s.alter (.happen (.dispatched (.event hub event)))) with ⟨ended, t⟩
  rw [ran] at delivers worked
  have none : (s.alter (.happen (.dispatched (.event hub event)))).world.calls
      s.world.journal.length = [] := by
    simp [World.calls, World.happen, Entry.calledBy, Happening.call?]
  have calls := delivers.calls
  rw [none, List.nil_append] at calls
  -- those who are called are some of those who listen, in the same order
  have some_ : List.Sublist
      ((turns.filter (·.isRegistered (.event hub event))).map (·.listener))
      ((h.listening event.name).map (·.id)) := by
    have still : (turns.filter (·.isRegistered (.event hub event))).Sublist turns :=
      List.filter_sublist
    have ids := ((still.map Turn.entry).trans delivers.ordered.sublist).map Prod.fst
    rwa [List.map_map, List.map_map] at ids
  have ascending : ((h.listening event.name).map (·.id)).Pairwise (· < ·) :=
    List.pairwise_map.mpr (ordered.ascending.filter _)
  refine ⟨turns, ended, t, worked, delivers, calls, ?_, fun id among => ?_⟩
  · rw [calls]
    exact ascending.sublist some_
  · rw [calls] at among
    obtain ⟨l, listening, rfl⟩ := List.mem_map.mp (some_.subset among)
    exact ordered.below l (List.mem_filter.mp listening).1

end Run

/-- In every run hubs list their listeners in the order of subscription.  A dispatch calls
those that were registered for its event when it began and still are when their turn comes,
in that order and each once, up to the first that fails, and ends as that one does.  And
hubs only go on: a listener that is gone is never called again. -/
theorem delivery_under_reentrancy (depth : Nat) (program : Program σ) (client : σ) :
    (∀ m ∈ Run.moments depth program ⟨.empty, [], client⟩, Ordered m.state.world.hubs) ∧
    (∀ (nested : Nat) (s : State σ) (hub : Ref .hub) (h : Hub) (event : Event),
      s.world.hubs.get? hub = some h → h.Ordered →
      ∃ turns ended t,
        (Run.dispatch (nested + 1) (.event hub event)).result s = (ended, t) ∧
        Delivers (Run.dispatch nested) (.event hub event) s.world.journal.length
          ((h.listening event.name).map fun l => (l.id, l.reaction))
          (s.alter (.happen (.dispatched (.event hub event)))) turns ended t ∧
        t.world.calls s.world.journal.length =
          (turns.filter (·.isRegistered (.event hub event))).map (·.listener) ∧
        (t.world.calls s.world.journal.length).Pairwise (· < ·) ∧
        ∀ id ∈ t.world.calls s.world.journal.length, id < h.nextId) ∧
    ∀ before m after, Run.moments depth program ⟨.empty, [], client⟩ = before ++ m :: after →
      ∀ earlier ∈ before, Lasts earlier.state.world.hubs m.state.world.hubs ∧
        ∀ hub h id, earlier.state.world.hubs.get? hub = some h → id < h.nextId →
          h.isRegistered id = false →
            ∀ event began reaction, m.point ≠ .calling (.event hub event) began id reaction := by
  have trail := Run.trail_moments depth program ⟨.empty, [], client⟩
  refine ⟨fun m listed => ?_, fun nested s hub h event present ordered =>
    Run.dispatch_turns nested event present ordered, fun before m after split earlier listed => ?_⟩
  · obtain ⟨before, after, split⟩ := List.append_of_mem listed
    refine (trail.upTo split).lasts.1.ordered fun ref hub present => ?_
    rw [show (State.world ⟨.empty, [], client⟩).hubs = .empty from rfl, Table.get?_empty] at present
    cases present
  · have here := trail.upTo split
    have lasts := here.lasts.2 earlier (List.mem_append_left _ listed)
    refine ⟨lasts, fun hub h id present given gone event began reaction called => ?_⟩
    have registered := (here.calls m (List.mem_append_right _ (List.mem_singleton.mpr rfl))
      _ _ _ _ called).2
    rw [Run.isRegistered] at registered
    split at registered
    · rename_i h' present'
      rw [lasts.isRegistered present present' given registered] at gone
      cases gone
    · cases registered

/-! ## Runs -/

namespace Sample

def listenerAt (id : Nat) : Subscription := ⟨⟨0⟩, id, "ping"⟩

/-- The first of four listeners takes itself and the second away, adds a fifth and
dispatches the same event once more; the third fails. -/
def unruly : Program Unit :=
  .call .openHub fun _ =>
    .subscribe ⟨0⟩ "ping" (fun _ =>
      .call (.cancel (listenerAt 0)) fun _ =>
        .call (.cancel (listenerAt 1)) fun _ =>
          .subscribe ⟨0⟩ "ping" (fun _ => .done) fun _ =>
            .call (.trigger ⟨0⟩ ⟨"ping", .null⟩) fun _ => .done) fun _ =>
    .subscribe ⟨0⟩ "ping" (fun _ => .done) fun _ =>
    .subscribe ⟨0⟩ "ping" (fun _ => .fail (.noSetter "third")) fun _ =>
    .subscribe ⟨0⟩ "ping" (fun _ => .done) fun _ =>
    .call (.trigger ⟨0⟩ ⟨"ping", .null⟩) fun _ => .done

/-- Whom the run calls, in order, each with where the dispatch began that calls it. -/
def called (program : Program Unit) : List (Nat × Nat) :=
  (Run.moments 3 program ⟨.empty, [], ()⟩).filterMap fun m =>
    match m.point with
    | .calling _ began listener _ => some (began, listener)
    | _ => none

end Sample

open Sample in
/-- The outer dispatch, which began first, calls the first listener and the third, which
fails; the one inside it calls the third, whose failure the first swallows. -/
theorem delivery_under_reentrancy_unruly :
    (∀ m ∈ Run.moments 3 unruly ⟨.empty, [], ()⟩, Ordered m.state.world.hubs) ∧
      called unruly = [(0, 0), (2, 2), (0, 2)] :=
  ⟨(delivery_under_reentrancy 3 unruly ()).1, by decide +kernel⟩

end LiveBinding
