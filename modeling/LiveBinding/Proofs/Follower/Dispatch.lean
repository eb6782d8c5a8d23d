/-
# LiveBinding.Proofs.Follower.Dispatch -- dispatches are attentive to followers

A dispatch calls the listeners that stood when it began.  Up to the turn of a
follower that hears the event, whatever is called may write again and dispatch
again; the follower either comes in step on the way or is still behind, and then
its subscription stands and its turn comes.  After its turn it is in step, and the
listeners after it keep it there.

The depth to which dispatches nest is what the induction is on: listeners call
upon dispatches one level down.
-/
import LiveBinding.Proofs.Follower.Refresh

namespace LiveBinding

set_option autoImplicit false

variable {σ α : Type}

namespace Follower

variable {f : Follower σ} {s : State σ} {fire : Fire σ}

/-! ## What clients do -/

theorem Attentive.keeps (attentive : f.Attentive fire) (signal : Signal) :
    Run.Follows (f.Takes f.fresh f.fresh) (fire signal) s :=
  takes_mono (attentive signal s) Or.inl fun _ => id

/-- A text that is typed takes a follower along that hears of the edit. -/
theorem takes_typeInto (lawful : f.Lawful) (attentive : f.Attentive fire)
    {document : Ref .document} {element : Ref .element} {text : String}
    (permitted : f.permits (.typeInto document element text)) :
    Run.Follows (f.Takes f.fresh f.fresh) (Run.typeInto fire document element text) s := by
  have typed : Run.Follows (f.Takes f.fresh
      fun w => f.fresh w ∨ f.HearsSignal (.edit document element))
      (Run.alter (.editDocument document (.amend element (.setValue (.text text))))) s := by
    refine Run.follows_alter (World.before_of_eq rfl) fun _ ready _ => ?_
    obtain ⟨there, brings⟩ := lawful.typed permitted ready.1
    exact ⟨⟨there, ready.2⟩, fun _ => brings⟩
  refine takes_bind typed fun _ t _ => ?_
  exact takes_keeping_of lawful.toRobust
    (fun ready => Or.imp_left (lawful.held (.document document) ready).2) (attentive _ _)

theorem takes_perform (lawful : f.Lawful) (attentive : f.Attentive fire) {call : Call σ}
    (permitted : f.permits call) :
    Run.Follows (f.Takes f.fresh f.fresh) (Run.perform fire call) s := by
  by_cases dispatches : call.dispatches = true
  · cases call with
    | trigger hub event => exact (takes_keeping lawful.toRobust (attentive.keeps _)).attempt
    | write model attributes => exact (takes_write lawful.toRobust attentive model attributes).attempt
    | assign accessor value => exact (takes_assign lawful.toRobust attentive accessor value).attempt
    | announceEdit document element =>
        exact (takes_keeping lawful.toRobust (attentive.keeps _)).attempt
    | typeInto document element text => exact (takes_typeInto lawful attentive permitted).attempt
    | _ => cases dispatches
  · exact lawful.called attentive permitted (by simpa using dispatches) s

theorem takes_enroll {callback : Event → Program σ} (allowed : ∀ event, (callback event).Only f.permits) :
    Run.Follows (f.Takes f.fresh f.fresh) (Run.enroll callback) s := by
  intro ended t worked _
  cases worked
  refine ⟨.refl _, fun _ ready _ => ⟨⟨ready.1, ?_⟩, fun _ => id⟩, by rintro _ ⟨⟩⟩
  intro other listed
  rcases List.mem_append.mp listed with old | new
  · exact ready.2 other old
  · rw [List.mem_singleton.mp new]
    exact allowed

theorem takes_exec (lawful : f.Lawful) (attentive : f.Attentive fire) {program : Program σ}
    (allowed : program.Only f.permits) :
    Run.Follows (f.Takes f.fresh f.fresh) (Run.exec fire program) s := by
  have onward := f.onward f.fresh
  induction allowed generalizing s with
  | done => exact onward.follows_pure ()
  | fail error => exact takes_fail lawful.toRobust error _ _
  | call permitted rest ih =>
      exact onward.bind (takes_perform lawful attentive permitted) fun answer t _ => ih answer
  | subscribe called rest calledIh ih =>
      refine onward.bind (takes_enroll called) fun number t _ => ?_
      exact onward.produce_bind (World.before_of_eq (World.journal_subscribe _ _ _ _))
        (lawful.subscribed _ _ number t.world).takes (ih _)
  | listen called rest calledIh ih =>
      refine onward.bind (takes_enroll fun _ => called) fun number t _ => ?_
      exact onward.produce_bind (World.before_of_eq (World.journal_listen _ _ _ _))
        (lawful.listened _ _ number t.world).takes (ih _)
  | look rest ih => exact Run.Follows.get_bind (ih _ _)
  | change rest ih =>
      exact onward.bind (takes_client f f.fresh fun _ => _) fun _ t _ => ih

/-- Every program makes only calls of some kind. -/
theorem only_of_all {permits : Call σ → Prop} (all : ∀ call, permits call) (program : Program σ) :
    program.Only permits := by
  induction program with
  | done => exact .done
  | fail error => exact .fail error
  | call call next ih => exact .call (all call) ih
  | subscribe hub event callback next callbackIh ih => exact .subscribe callbackIh ih
  | listen document element callback next callbackIh ih => exact .listen callbackIh ih
  | look next ih => exact .look ih
  | change g next ih => exact .change ih

/-- Whatever is dispatched, the journal goes on and failures are noted. -/
structure Goes (fire : Fire σ) : Prop where
  dispatched : ∀ signal s, Run.Follows (fun _ _ => True) (fire signal) s
  executed : ∀ program s, Run.Follows (fun _ _ => True) (Run.exec fire program) s

theorem Attentive.goes (attentive : f.Attentive fire) (lawful : f.Lawful)
    (all : ∀ call, f.permits call) : Goes fire where
  dispatched signal s := (attentive signal s).mono fun _ _ _ => trivial
  executed program _ :=
    (takes_exec lawful attentive (only_of_all all program)).mono fun _ _ _ => trivial

/-! ## What listeners do -/

theorem takes_push (robust : f.Robust) (attentive : f.Attentive fire) (binding : Ref .binding)
    (slot : Nat) : Run.Follows (f.Takes f.fresh f.fresh) (Run.push fire binding slot) s := by
  have onward := f.onward f.fresh
  refine Run.Follows.world_bind ?_
  split
  · exact onward.follows_pure ()
  · split
    · split
      · exact onward.bind (takes_report robust _) fun _ t _ => takes_assign robust attentive _ _
      · exact onward.follows_pure ()
    · exact onward.follows_pure ()

/-- A callback keeps a follower in step, since it does only what is permitted. -/
theorem takes_callback (lawful : f.Lawful) (attentive : f.Attentive fire) (goes : Goes fire)
    (event : Event) (callback : Nat) :
    Run.Follows (f.Takes f.fresh f.fresh) (Run.react fire event (.client callback)) s := by
  refine Run.Follows.get_bind ?_
  split
  · rename_i program enrolled
    intro ended t worked deep
    obtain ⟨before, -, noted⟩ := goes.executed _ s ended t worked deep
    refine ⟨before, fun _ ready => ?_, noted⟩
    have allowed := ready.2 program (List.mem_of_getElem? enrolled) event
    exact (takes_exec lawful attentive allowed ended t worked deep).2.1 ready
  · exact (f.onward f.fresh).follows_pure ()

/-- What is not its own reaction keeps a follower in step. -/
theorem takes_react (lawful : f.Lawful) (attentive : f.Attentive fire) (goes : Goes fire)
    {event : Event} {reaction : Reaction} (other : ¬ f.own reaction)
    (tolerated : ∀ binding slot, reaction = .reapply binding slot → f.tolerates binding slot) :
    Run.Follows (f.Takes f.fresh f.fresh) (Run.react fire event reaction) s := by
  cases reaction with
  | client callback => exact takes_callback lawful attentive goes event callback
  | refresh model property => exact takes_refresh lawful.toRobust attentive other
  | reapply binding slot =>
      exact lawful.reapplied binding slot event.name s other (tolerated binding slot rfl)
  | push binding slot => exact takes_push lawful.toRobust attentive binding slot

/-! ## Dispatching -/

theorem mem_listeners_event {w : World σ} {hub : Ref .hub} {event : Event} {id : Nat}
    {reaction : Reaction} : (id, reaction) ∈ Run.listeners w (.event hub event) ↔
      Registered w.hubs ⟨hub, id, event.name⟩ reaction := by
  simp only [Run.listeners, Registered]
  constructor
  · intro listed
    split at listed
    · rename_i h present
      obtain ⟨l, among, same⟩ := List.mem_map.mp listed
      obtain ⟨there, named⟩ := List.mem_filter.mp among
      cases same
      exact ⟨h, present, by rw [← of_decide_eq_true named]; exact there⟩
    · cases listed
  · rintro ⟨h, present, listed⟩
    rw [present]
    exact List.mem_map.mpr ⟨_, List.mem_filter.mpr ⟨listed, by simp⟩, rfl⟩

theorem mem_listeners_edit {w : World σ} {a : Attendance} {reaction : EditReaction}
    (attended : Attended w.documents a reaction) :
    (a.id, reaction.reaction) ∈ Run.listeners w (.edit a.document a.element) := by
  obtain ⟨d, present, listed⟩ := attended
  simp only [Run.listeners, present]
  exact List.mem_map.mpr ⟨_, listed, rfl⟩

theorem isRegistered_of_mem_listeners {w : World σ} {signal : Signal} {id : Nat}
    {reaction : Reaction} (listed : (id, reaction) ∈ Run.listeners w signal) :
    Run.isRegistered w signal id = true := by
  cases signal with
  | event hub event =>
      obtain ⟨h, present, there⟩ := mem_listeners_event.mp listed
      simp only [Run.isRegistered, present]
      exact List.any_eq_true.mpr ⟨_, there, by simp⟩
  | edit document element =>
      simp only [Run.listeners] at listed
      split at listed
      · rename_i d present
        obtain ⟨l, there, same⟩ := List.mem_map.mp listed
        cases same
        simp only [Run.isRegistered, present]
        exact List.any_eq_true.mpr ⟨l, there, by simp⟩
      · cases listed

/-- As long as it is behind, a listener that the follower holds is there. -/
theorem Robust.stands (robust : f.Robust) {held : List Handle} {w : World σ} {signal : Signal}
    {id : Nat} (ready : f.ready held w) (behind : ¬ f.fresh w) (holds : f.Holds id signal) :
    ∃ reaction, f.own reaction ∧ (id, reaction) ∈ Run.listeners w signal := by
  cases signal with
  | event hub event =>
      obtain ⟨sub, listed, rfl, named, rfl⟩ := holds
      obtain ⟨reaction, own, registered⟩ := robust.registered ready behind sub listed
      refine ⟨reaction, own, mem_listeners_event.mpr ?_⟩
      rw [← named]
      exact registered
  | edit document element =>
      obtain ⟨a, listed, rfl, rfl, rfl⟩ := holds
      obtain ⟨reaction, own, attended⟩ := robust.attended ready behind a listed
      exact ⟨reaction.reaction, own, mem_listeners_edit attended⟩

def Awaits (f : Follower σ) (signal : Signal) (listeners : List (Nat × Reaction)) : Prop :=
  ∃ id reaction, f.Holds id signal ∧ f.own reaction ∧ (id, reaction) ∈ listeners

def Bears (f : Follower σ) (listeners : List (Nat × Reaction)) : Prop :=
  ∀ listener ∈ listeners, ∀ binding slot, listener.2 = .reapply binding slot →
    f.tolerates binding slot

/-- Calling listeners brings a follower in step whose turn is among them. -/
theorem takes_deliver (lawful : f.Lawful) (attentive : f.Attentive fire) (goes : Goes fire)
    (signal : Signal) (began : Nat) {listeners : List (Nat × Reaction)} (bears : f.Bears listeners) :
    Run.Follows (f.Takes (fun w => f.fresh w ∨ f.Awaits signal listeners) f.fresh)
      (Run.deliver fire signal began listeners) s := by
  induction listeners generalizing s with
  | nil =>
      refine takes_mono ((f.onward f.fresh).follows_pure ()) ?_ fun _ => id
      rintro (fresh | ⟨_, _, _, _, none⟩)
      · exact fresh
      · cases none
  | cons listener rest ih =>
      obtain ⟨id, reaction⟩ := listener
      have bearsRest : f.Bears rest := fun listener listed =>
        bears listener (List.mem_cons_of_mem _ listed)
      refine Run.Follows.world_bind ?_
      split
      · refine takes_bind (takes_alter_or (World.before_happen _ _) (lawful.happened _ _)) ?_
        intro _ t _
        have turn : Run.Follows (f.Takes (fun w => f.fresh w ∨ f.Awaits signal ((id, reaction) :: rest))
            (fun w => f.fresh w ∨ f.Awaits signal rest))
            (Run.react fire (Run.eventOf signal) reaction) t := by
          by_cases own : f.own reaction
          · exact takes_mono (lawful.renewed attentive own _ t) (fun _ => trivial) fun _ => Or.inl
          · refine (takes_react lawful attentive goes own
              (bears (id, reaction) List.mem_cons_self)).mono fun u _ takes _ ready calm => ?_
            obtain ⟨readyU, brings⟩ := takes ready calm
            refine ⟨readyU, fun sound start => ?_⟩
            rcases start with fresh | ⟨_, r, holds, mine, among⟩
            · exact Or.inl (brings sound fresh)
            · rcases List.mem_cons.mp among with here | later
              · cases here
                exact absurd mine own
              · exact Or.inr ⟨_, r, holds, mine, later⟩
        exact takes_bind turn fun _ u _ => ih bearsRest
      · rename_i unregistered
        refine (ih bearsRest).mono fun t _ takes _ ready calm => ?_
        obtain ⟨readyT, brings⟩ := takes ready calm
        refine ⟨readyT, fun sound start => brings sound ?_⟩
        rcases start with fresh | ⟨_, r, holds, mine, among⟩
        · exact Or.inl fresh
        · rcases List.mem_cons.mp among with here | later
          · -- its turn is skipped only when it is in step already
            refine Or.inl (Classical.byContradiction fun behind => unregistered ?_)
            cases here
            obtain ⟨_, _, listed⟩ := lawful.stands ready.1 behind holds
            exact isRegistered_of_mem_listeners listed
          · exact Or.inr ⟨_, r, holds, mine, later⟩

/-- A follower that is ready tolerates whatever listens. -/
theorem Lawful.bears (lawful : f.Lawful) {held : List Handle} {w : World σ}
    (ready : f.ready held w) (signal : Signal) :
    f.Bears (Run.listeners w signal) := by
  rintro ⟨id, _⟩ listed binding slot rfl
  cases signal with
  | event hub event => exact lawful.tolerant ready (mem_listeners_event.mp listed)
  | edit document element =>
      -- nothing that listens to edits applies a slot anew
      simp only [Run.listeners] at listed
      split at listed
      · obtain ⟨l, -, same⟩ := List.mem_map.mp listed
        rcases l with ⟨_, _ | _⟩ <;> cases same
      · cases listed

/-- If dispatches of one depth are attentive to a follower, so are those one deeper. -/
theorem attentive_succ (lawful : f.Lawful) {depth : Nat}
    (attentive : f.Attentive (Run.dispatch depth)) (goes : Goes (σ := σ) (Run.dispatch depth))
    (otherwise : (∀ binding slot, f.tolerates binding slot) ∨
      Goes (σ := σ) (Run.dispatch (depth + 1))) :
    f.Attentive (Run.dispatch (depth + 1)) := by
  intro signal s
  by_cases bears : f.Bears (Run.listeners s.world signal)
  · refine Run.Follows.world_bind ?_
    have begins : Run.Follows (f.Takes (fun w => f.fresh w ∨ f.HearsSignal signal)
        (fun w => f.fresh w ∨ f.Awaits signal (Run.listeners s.world signal)))
        (Run.alter (.happen (.dispatched signal))) s := by
      refine Run.follows_alter (World.before_happen _ _) fun _ ready _ => ?_
      obtain ⟨there, still⟩ := lawful.happened (.dispatched signal) s.world ready.1
      refine ⟨⟨there, ready.2⟩, fun _ start => ?_⟩
      by_cases fresh : f.fresh s.world
      · exact Or.inl (still fresh)
      · rcases start with now | ⟨id, holds⟩
        · exact absurd now fresh
        · obtain ⟨reaction, own, listed⟩ := lawful.stands ready.1 fresh holds
          exact Or.inr ⟨id, reaction, holds, own, listed⟩
    exact takes_bind begins fun _ t _ => takes_deliver lawful attentive goes _ _ bears
  · -- then it is not ready, and nothing is claimed but that the journal goes on
    rcases otherwise with all | goesThen
    · exact absurd (fun _ _ binding slot _ => all binding slot) bears
    · exact (goesThen.dispatched signal s).mono fun _ _ _ _ ready =>
        absurd (lawful.bears ready.1 signal) bears

theorem attentive_zero (f : Follower σ) : f.Attentive (Run.dispatch 0) := by
  intro signal s ended t worked deep
  cases worked
  exact absurd rfl deep

/-- Dispatches are attentive to a follower that permits and tolerates everything. -/
theorem attentive_of_open (lawful : f.Lawful) (all : ∀ call, f.permits call)
    (tolerates : ∀ binding slot, f.tolerates binding slot) (depth : Nat) :
    f.Attentive (Run.dispatch depth) := by
  induction depth with
  | zero => exact attentive_zero f
  | succ depth ih => exact attentive_succ lawful ih (ih.goes lawful all) (Or.inl tolerates)

/-- Dispatches are attentive to a follower. -/
theorem attentive (lawful : f.Lawful) (goes : ∀ depth, Goes (σ := σ) (Run.dispatch depth))
    (depth : Nat) : f.Attentive (Run.dispatch depth) := by
  induction depth with
  | zero => exact attentive_zero f
  | succ depth ih => exact attentive_succ lawful ih (goes depth) (Or.inr (goes (depth + 1)))

end Follower

end LiveBinding
