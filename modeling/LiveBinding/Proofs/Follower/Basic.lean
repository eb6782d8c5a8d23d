/-
# LiveBinding.Proofs.Follower.Basic -- what is kept in step with a model

A follower is anything that is to be kept in step with what models read as: a
computed property, or an operator on an element.  It is brought in step by its
reaction, which it has subscribed to the events that concern it.

In the middle of a write a follower may be behind.  What carries the argument is
that it then has an event still to come.  So the one thing to know of a dispatch
is this (`Attentive`): it leaves a follower in step that was in step before, *or*
that hears the event.  A write that changes what a follower reads makes it one or
the other, whatever the listeners that are called first may write in turn.

`Robust` and `Lawful` list what a follower owes for the dispatch to be attentive to it; that it
is, is shown in `LiveBinding.Proofs.Follower.Dispatch`.
-/
import LiveBinding.Proofs.Run.Follows
import LiveBinding.Proofs.World.Put

namespace LiveBinding

set_option autoImplicit false

variable {σ α β : Type}

structure Attendance where
  document : Ref .document
  element : Ref .element
  id : Nat

/-- The listener is on its element and reacts so. -/
def Attended (documents : Table .document Document) (a : Attendance) (reaction : EditReaction) :
    Prop :=
  ∃ d, documents.get? a.document = some d ∧ ⟨a.id, reaction⟩ ∈ d.listeners a.element

/-- Something that is to be kept in step with what models read as. -/
structure Follower (σ : Type) where
  /-- It is where it has to be to hear of changes, whatever the work under way lets go of
  that it holds on to. -/
  ready : List Handle → World σ → Prop
  /-- It is in step. -/
  fresh : World σ → Prop
  /-- What brings it in step. -/
  own : Reaction → Prop
  /-- The events on which that is done. -/
  subscriptions : List Subscription
  /-- The edits on which that is done. -/
  attendances : List Attendance
  /-- The slots of bindings that may be applied anew meanwhile. -/
  tolerates : Ref .binding → Nat → Prop
  /-- What clients may ask for meanwhile. -/
  permits : Call σ → Prop
  /-- What must not happen meanwhile. -/
  disturbs : Happening → Prop

def Call.dispatches : Call σ → Bool
  | .trigger .. => true
  | .write .. => true
  | .assign .. => true
  | .announceEdit .. => true
  | .typeInto .. => true
  | _ => false

/-- All calls of a program are such, and of the callbacks it enrols. -/
inductive Program.Only (permits : Call σ → Prop) : Program σ → Prop
  | done : Only permits .done
  | fail (error : Error) : Only permits (.fail error)
  | call {call : Call σ} {next : call.Answer → Program σ} (permitted : permits call)
      (rest : ∀ answer, Only permits (next answer)) : Only permits (.call call next)
  | subscribe {hub : Ref .hub} {event : String} {callback : Event → Program σ}
      {next : Option Subscription → Program σ} (called : ∀ event, Only permits (callback event))
      (rest : ∀ answer, Only permits (next answer)) :
      Only permits (.subscribe hub event callback next)
  | listen {document : Ref .document} {element : Ref .element} {callback : Program σ}
      {next : Nat → Program σ} (called : Only permits callback)
      (rest : ∀ answer, Only permits (next answer)) :
      Only permits (.listen document element callback next)
  | look {next : World σ → σ → Program σ}
      (rest : ∀ world client, Only permits (next world client)) : Only permits (.look next)
  | change {g : σ → σ} {next : Program σ} (rest : Only permits next) :
      Only permits (.change g next)

namespace Follower

def Hears (f : Follower σ) (hub : Ref .hub) (event : String) : Prop :=
  ∃ s ∈ f.subscriptions, s.hub = hub ∧ s.event = event

def Holds (f : Follower σ) (id : Nat) : Signal → Prop
  | .event hub event => ∃ s ∈ f.subscriptions, s.hub = hub ∧ s.event = event.name ∧ s.id = id
  | .edit document element =>
      ∃ a ∈ f.attendances, a.document = document ∧ a.element = element ∧ a.id = id

def HearsSignal (f : Follower σ) (signal : Signal) : Prop :=
  ∃ id, f.Holds id signal

def HearsOneOf (f : Follower σ) (hub : Ref .hub) (changes : List (String × Json)) : Prop :=
  ∃ change ∈ changes, f.Hears hub (changeOf change.1)

def Ready (f : Follower σ) (held : List Handle) (s : State σ) : Prop :=
  f.ready held s.world ∧ ∀ callback ∈ s.callbacks, ∀ event, (callback event).Only f.permits

/-- A change of the world that leaves the follower ready, and in step if it was. -/
def Keeps (f : Follower σ) (v w : World σ) : Prop :=
  ∀ ⦃held⦄, f.ready held v → f.ready held w ∧ (f.fresh v → f.fresh w)

/-- Work that takes the follower from `before` to `after`, unless something fails
or disturbs it. -/
def Takes (f : Follower σ) (before after : World σ → Prop) (s t : State σ) : Prop :=
  ∀ ⦃held⦄, f.Ready held s → ¬ s.world.Saw f.disturbs t.world →
    f.Ready held t ∧ (¬ s.world.Failed t.world → before s.world → after t.world)

/-- A dispatch leaves the follower in step if it was, or if it hears what is
dispatched. -/
def Attentive (f : Follower σ) (fire : Fire σ) : Prop :=
  ∀ signal s, Run.Follows (f.Takes (fun w => f.fresh w ∨ f.HearsSignal signal) f.fresh) (fire signal) s

/-- What a follower owes on its own. -/
structure Robust (f : Follower σ) : Prop where
  /-- As long as it is behind, its subscriptions stand. -/
  registered : ∀ {held w}, f.ready held w → ¬ f.fresh w → ∀ s ∈ f.subscriptions,
    ∃ reaction, f.own reaction ∧ Registered w.hubs s reaction
  attended : ∀ {held w}, f.ready held w → ¬ f.fresh w → ∀ a ∈ f.attendances,
    ∃ reaction : EditReaction, f.own reaction.reaction ∧ Attended w.documents a reaction
  marked : ∀ {v w : World σ}, w.hubs = v.hubs → w.models = v.models → w.documents = v.documents →
    w.bindings = v.bindings → w.views = v.views → w.held = v.held → f.Keeps v w
  /-- Work may hold on to something, and let go of it in the end. -/
  held : ∀ handle {held w}, f.ready held w →
    f.ready (handle :: held) (w.hold handle) ∧ (f.fresh w → f.fresh (w.hold handle))
  released : ∀ handle {held w}, f.ready (handle :: held) w →
    f.ready held (w.release handle) ∧ (f.fresh w → f.fresh (w.release handle))
  subscribed : ∀ hub event callback w, f.Keeps w (w.subscribe hub event (.client callback)).2
  listened : ∀ document element callback w,
    f.Keeps w (w.listen document element (.client callback)).2
  /-- Storing attributes puts it behind only if it hears one of the changes. -/
  stored : ∀ {held w model m pending}, w.models.get? model = some m →
    (m.MapsAside → ∀ name ∈ Fields.keys pending, m.isComputed name = false) → f.ready held w →
    f.ready held (w.put model { m with store := (m.store.apply pending).1 }) ∧
      (f.fresh w → f.fresh (w.put model { m with store := (m.store.apply pending).1 }) ∨
        f.HearsOneOf m.hub (m.store.apply pending).2)
  /-- So does a new value of a property that is not the follower itself. -/
  adopted : ∀ {held w model m p value}, w.models.get? model = some m →
    m.property? p.name = some p → (m.IsRegular → value.isScalar = true) →
    Run.isSettled p.value value = false → ¬ f.own (.refresh model p.name) → f.ready held w →
    f.ready held (w.put model (m.adopt p value).1) ∧
      (f.fresh w → f.fresh (w.put model (m.adopt p value).1) ∨
        f.HearsOneOf m.hub (m.adopt p value).2)

/-- What a follower owes to those that dispatch. -/
structure Lawful (f : Follower σ) : Prop extends f.Robust where
  /-- Its reactions bring it in step. -/
  renewed : ∀ {fire reaction}, f.Attentive fire → f.own reaction → ∀ event s,
    Run.Follows (f.Takes (fun _ => True) f.fresh) (Run.react fire event reaction) s
  /-- All slots that can be applied anew are tolerated. -/
  tolerant : ∀ {held w s binding slot}, f.ready held w →
    Registered w.hubs s (.reapply binding slot) → f.tolerates binding slot
  reapplied : ∀ binding slot event s, ¬ f.own (.reapply binding slot) →
    f.tolerates binding slot →
    Run.Follows (f.Takes f.fresh f.fresh) (Run.reapply binding slot event) s
  /-- What is typed puts it behind only if it hears of the edit. -/
  typed : ∀ {held w document element text}, f.permits (.typeInto document element text) →
    f.ready held w →
    f.ready held (w.editDocument document (.amend element (.setValue (.text text)))) ∧
      (f.fresh w →
        f.fresh (w.editDocument document (.amend element (.setValue (.text text)))) ∨
          f.HearsSignal (.edit document element))
  called : ∀ {fire call}, f.Attentive fire → f.permits call → call.dispatches = false → ∀ s,
    Run.Follows (f.Takes f.fresh f.fresh) (Run.perform fire call) s

/-! ## Putting work together -/

section

variable {f : Follower σ} {P Q R : World σ → Prop} {s t u : State σ}

theorem Takes.mono (takes : f.Takes P Q s t) {P' Q' : World σ → Prop}
    (stronger : P' s.world → P s.world) (weaker : Q t.world → Q' t.world) : f.Takes P' Q' s t := by
  intro _ ready calm
  obtain ⟨ready', brings⟩ := takes ready calm
  exact ⟨ready', fun sound before => weaker (brings sound (stronger before))⟩

theorem Takes.trans (before : s.world.Before t.world) (beforeThen : t.world.Before u.world)
    (first : f.Takes P Q s t) (then_ : f.Takes Q R t u) : f.Takes P R s u := by
  intro _ ready calm
  rw [World.saw_trans before beforeThen, not_or] at calm
  obtain ⟨readyT, brings⟩ := first ready calm.1
  obtain ⟨readyU, bringsThen⟩ := then_ readyT calm.2
  refine ⟨readyU, fun sound start => ?_⟩
  rw [World.Failed, World.saw_trans before beforeThen, not_or] at sound
  exact bringsThen sound.2 (brings sound.1 start)

theorem hearsSignal_of_hears {hub : Ref .hub} {event : Event} (hears : f.Hears hub event.name) :
    f.HearsSignal (.event hub event) := by
  obtain ⟨s, listed, same, named⟩ := hears
  exact ⟨s.id, s, listed, same, named, rfl⟩

theorem onward (f : Follower σ) (P : World σ → Prop) : Run.Onward (f.Takes P P) where
  refl _ _ ready _ := ⟨ready, fun _ => id⟩
  trans before beforeThen first then_ := first.trans before beforeThen then_

theorem takes_bind {work : Run σ α} {next : α → Run σ β} (first : Run.Follows (f.Takes P Q) work s)
    (rest : ∀ a t, work.result s = (.ok a, t) → Run.Follows (f.Takes Q R) (next a) t) :
    Run.Follows (f.Takes P R) (work >>= next) s :=
  first.bind_of rest
    (fun _ _ _ failed takes _ ready calm => ⟨(takes ready calm).1, fun sound => absurd failed sound⟩)
    fun _ _ before beforeThen takes takesThen => takes.trans before beforeThen takesThen

theorem takes_mono {work : Run σ α} (follows : Run.Follows (f.Takes P Q) work s)
    {P' Q' : World σ → Prop} (stronger : P' s.world → P s.world)
    (weaker : ∀ w, Q w → Q' w) : Run.Follows (f.Takes P' Q') work s :=
  follows.mono fun _ _ takes => takes.mono stronger (weaker _)

theorem Keeps.takes {g : World σ → World σ} (keeps : f.Keeps s.world (g s.world)) :
    f.Takes f.fresh f.fresh s (s.alter g) := by
  intro _ ready _
  obtain ⟨there, fresh⟩ := keeps ready.1
  exact ⟨⟨there, ready.2⟩, fun _ => fresh⟩

end

end Follower

end LiveBinding
