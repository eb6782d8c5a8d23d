/-
# LiveBinding.Proofs.Run.News -- who is told what of an event

At a moment at which an event is dispatched, or a listener is called with one, there is
news: of which event on which hub, and to whom.  `payloads` are the values that are told of
one event, in order: to everybody, as they are dispatched, or to one listener, as it is
called.

Callbacks that only record bring no news and leave everything that a model is announced
through as it is (`exec_records`), and so does applying a slot anew (`reapply_alike`).
-/
import LiveBinding.Proofs.Model.Origin
import LiveBinding.Proofs.Run.Moment
import LiveBinding.Proofs.Run.Settle
import LiveBinding.Proofs.Run.Slot

namespace LiveBinding

set_option autoImplicit false

variable {σ : Type}

/-! ## News -/

/-- The event at a point, on its hub, and the listener that is called with it; none when it
is dispatched. -/
def Point.news : Point σ → Option (Option Nat × Ref .hub × Event)
  | .dispatching (.event hub event) => some (none, hub, event)
  | .calling (.event hub event) _ listener _ => some (some listener, hub, event)
  | _ => none

def Signal.payload (hub : Ref .hub) (event : String) : Signal → List Json
  | .event on told => if on = hub ∧ told.name = event then [told.value] else []
  | .edit _ _ => []

/-- What is told of an event on the way, in order: what `who` is called with or, when that is
nobody, what is dispatched. -/
def payloads (hub : Ref .hub) (event : String) (who : Option Nat) (ms : List (Moment σ)) :
    List Json :=
  ms.flatMap fun m => match m.point.news with
    | some (listener, on, told) =>
        if listener = who then Signal.payload hub event (.event on told) else []
    | none => []

section Payloads

variable {hub : Ref .hub} {event : String} {who : Option Nat}

@[simp] theorem payloads_append (ms ms' : List (Moment σ)) :
    payloads hub event who (ms ++ ms') = payloads hub event who ms ++ payloads hub event who ms' :=
  List.flatMap_append

theorem payloads_of_silent {ms : List (Moment σ)} (silent : ∀ m ∈ ms, m.point.news = none) :
    payloads hub event who ms = [] := by
  refine List.flatMap_eq_nil_iff.mpr fun m listed => ?_
  rw [silent m listed]

theorem payloads_dispatching (on : Ref .hub) (told : Event) (s : State σ) :
    payloads hub event who [⟨.dispatching (.event on told), s⟩] =
      if none = who then Signal.payload hub event (.event on told) else [] := by
  simp [payloads, Point.news]

theorem payloads_calling (on : Ref .hub) (told : Event) (began listener : Nat)
    (reaction : Reaction) (s : State σ) :
    payloads hub event who [⟨.calling (.event on told) began listener reaction, s⟩] =
      if some listener = who then Signal.payload hub event (.event on told) else [] := by
  simp [payloads, Point.news]

end Payloads

namespace Signal

variable {hub on : Ref .hub} {event : Event}

theorem payload_of_other (other : on ≠ hub) (name : String) :
    payload hub name (.event on event) = [] :=
  if_neg fun same => other same.1

theorem of_payload {name : String} (told : payload hub name (.event on event) ≠ []) :
    on = hub ∧ event.name = name := by
  by_contra other
  exact told (if_neg other)

/-- The announcements of a hub tell of each change by its own event. -/
theorem payload_announcements (changes : List (String × Json)) (name : String) :
    (Opening.announcements hub changes).flatMap (payload hub (changeOf name)) =
      valuesOf name changes := by
  have each : ∀ changes : List (String × Json),
      (changes.map fun change => Signal.event hub ⟨changeOf change.1, change.2⟩).flatMap
        (payload hub (changeOf name)) = valuesOf name changes := by
    intro changes
    induction changes with
    | nil => rfl
    | cons change rest ih =>
        obtain ⟨key, value⟩ := change
        rw [List.map_cons, List.flatMap_cons, ih, valuesOf_cons]
        congr 1
        by_cases same : key = name
        · simp [payload, same]
        · have other : changeOf key ≠ changeOf name := fun told => same (changeOf_injective told)
          simp [payload, same, other]
  have last : payload hub (changeOf name) (.event hub ⟨changeEvent, .null⟩) = [] :=
    if_neg fun same => changeOf_ne_changeEvent name same.2.symm
  rw [Opening.announcements, List.flatMap_append, each]
  split <;> simp [last]

theorem mem_announcements {signal : Signal} {changes : List (String × Json)}
    (listed : signal ∈ Opening.announcements hub changes) :
    ∃ event, signal = .event hub event ∧
      (event.name = changeEvent ∨ ∃ change ∈ changes, event.name = changeOf change.1) := by
  rcases List.mem_append.mp listed with each | last
  · obtain ⟨change, among, rfl⟩ := List.mem_map.mp each
    exact ⟨_, rfl, Or.inr ⟨change, among, rfl⟩⟩
  · split at last
    · cases last
    · obtain rfl := List.mem_singleton.mp last
      exact ⟨_, rfl, Or.inl rfl⟩

end Signal

/-! ## What brings no news -/

/-- Nothing has changed that models are announced through. -/
structure State.Alike (s t : State σ) : Prop where
  hubs : t.world.hubs = s.world.hubs
  models : t.world.models = s.world.models
  views : t.world.views = s.world.views
  held : t.world.held = s.world.held
  callbacks : t.callbacks = s.callbacks

namespace State.Alike

variable {s t u : State σ}

theorem refl (s : State σ) : s.Alike s := ⟨rfl, rfl, rfl, rfl, rfl⟩

theorem happen (happening : Happening) (s : State σ) : s.Alike (s.alter (.happen happening)) :=
  ⟨rfl, rfl, rfl, rfl, rfl⟩

theorem trans (first : s.Alike t) (then_ : t.Alike u) : s.Alike u where
  hubs := then_.hubs.trans first.hubs
  models := then_.models.trans first.models
  views := then_.views.trans first.views
  held := then_.held.trans first.held
  callbacks := then_.callbacks.trans first.callbacks

end State.Alike

/-- All that the program does is to look on, to report and to change the client's own
state. -/
inductive Program.Records : Program σ → Prop
  | done : Records .done
  | fail (error : Error) : Records (.fail error)
  | report (message : Message) {next : (Call.report (σ := σ) message).Answer → Program σ}
      (rest : Records (next ())) : Records (.call (.report message) next)
  | look {next : World σ → σ → Program σ} (rest : ∀ world client, Records (next world client)) :
      Records (.look next)
  | change (f : σ → σ) {next : Program σ} (rest : Records next) : Records (.change f next)

namespace Run

variable {visit : Signal → State σ → List (Moment σ)} {fire : Fire σ}

theorem exec_records (visit : Signal → State σ → List (Moment σ)) {program : Program σ}
    (records : program.Records) {s t : State σ}
    (ended : (exec fire program).result s = (.ok (), t)) :
    s.Alike t ∧ ∀ m ∈ execMoments visit fire program s, m.point.news = none := by
  induction records generalizing s with
  | done =>
      cases ended
      exact ⟨.refl _, fun _ none => absurd none List.not_mem_nil⟩
  | fail error => cases ended
  | @report message next rest ih =>
      have reported : (perform fire (.report message)).result s =
          (.ok (), s.alter (.report message)) := rfl
      rw [exec, result_bind_ok reported] at ended
      obtain ⟨alike, silent⟩ := ih ended
      refine ⟨⟨alike.hubs, alike.models, alike.views, alike.held, alike.callbacks⟩,
        fun m listed => ?_⟩
      rw [execMoments, reported] at listed
      rcases List.mem_cons.mp listed with rfl | later
      · rfl
      · rcases List.mem_cons.mp later with rfl | last
        · rfl
        · exact silent m last
  | @look next rest ih => exact ih s.world s.client ended
  | @change f next rest ih =>
      obtain ⟨alike, silent⟩ := ih (s := { s with client := f s.client }) ended
      exact ⟨⟨alike.hubs, alike.models, alike.views, alike.held, alike.callbacks⟩, silent⟩

/-- The moments of one call are that at which it is made, its own, and that at which it has
returned. -/
theorem moments_call {depth : Nat} {call : Call σ} {answer : call.Answer} {s t : State σ}
    (performed : (perform (dispatch depth) call).result s = (.ok answer, t)) :
    moments depth (.call call fun _ => .done) s =
      [⟨.making call, s⟩] ++ openingMoments (dispatchMoments depth) (dispatch depth) call.opening s ++
        [⟨.made call answer, t⟩] := by
  rw [moments, execMoments, performed]
  rfl

theorem reapply_alike {binding : Ref .binding} {index : Nat} {event : String} {s t : State σ}
    (ended : (reapply binding index event).result s = (.ok (), t)) : s.Alike t := by
  have follows : Follows State.Alike (reapply binding index event) s := by
    refine follows_reapply (fun _ => .refl s) (fun b slot compiled _ _ _ => ?_) fun _ _ =>
      ⟨rfl, rfl, rfl, rfl, rfl⟩
    obtain ⟨hubs, models, views, held, -⟩ := World.renew_tables binding index b slot
      (reapplication b slot event) compiled s.world
    exact ⟨hubs, models, views, held, rfl⟩
  exact (follows _ t ended nofun).2.1

end Run

end LiveBinding
