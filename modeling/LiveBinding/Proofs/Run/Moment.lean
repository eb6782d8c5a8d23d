/-
# LiveBinding.Proofs.Run.Moment -- what a run passes through

Between the beginning and the end of a run there are many points at which a client
can look at the world: whenever it makes a call, has an answer, or is called back.
`Run.moments` lists these points in the order in which the run gets to them, each
with the state that it has there.  The list follows the recursion of the interpreter
and takes every state from the interpreter itself.

A `Trail` is how a run gets to a state: the moments that it has passed by then, and the
steps between them.  Every run is a trail (`trail_moments`), and so is every stretch of
it up to one of its moments (`Trail.upTo`).  What all steps preserve therefore holds
at all moments.
-/
import LiveBinding.Proofs.Run.Concludes
import LiveBinding.Proofs.Run.Errand

namespace LiveBinding

set_option autoImplicit false

variable {σ : Type}

/-- A point of a run. -/
inductive Point (σ : Type) where
  /-- A call is about to be made. -/
  | making (call : Call σ)
  /-- A call has returned. -/
  | made (call : Call σ) (answer : call.Answer)
  /-- A client has subscribed one of its callbacks. -/
  | subscribed (subscription : Option Subscription) (callback : Nat)
  /-- A dispatch is about to begin. -/
  | dispatching (signal : Signal)
  /-- A listener is about to do what it does, in the dispatch that began at an entry of
  the journal. -/
  | calling (signal : Signal) (began listener : Nat) (reaction : Reaction)

structure Moment (σ : Type) where
  point : Point σ
  state : State σ

/-! ## Openings of calls and reactions -/

/-- What comes before the dispatches of a call; nothing, if it makes none. -/
def Call.opening : Call σ → Option (Run σ Errand)
  | .trigger hub event => some (Opening.keeping (.hub hub) (pure ⟨[.event hub event], []⟩))
  | .write model attributes => some (Opening.write model attributes)
  | .assign accessor value => some (Opening.assign accessor value)
  | .bindComputed model definitions => some (Opening.bindComputed model definitions)
  | .announceEdit document element =>
      some (Opening.keeping (.document document) (pure ⟨[.edit document element], []⟩))
  | .typeInto document element text => some (Opening.typeInto document element text)
  | _ => none

/-- What comes before the dispatches of a listener that is not a client's. -/
def Reaction.opening (event : Event) : Reaction → Option (Run σ Errand)
  | .client _ => none
  | .refresh model property => some (Opening.refresh model property)
  | .reapply binding slot => some do
      Run.reapply binding slot event.name
      pure .nothing
  | .push binding slot => some (Opening.push binding slot)

namespace State

def subscribe (hub : Ref .hub) (event : String) (callback : Event → Program σ) (s : State σ) :
    Option Subscription × State σ :=
  let result := s.world.subscribe hub event (.client s.callbacks.length)
  (result.1, { s with world := result.2, callbacks := s.callbacks ++ [callback] })

def listen (document : Ref .document) (element : Ref .element) (callback : Program σ)
    (s : State σ) : Nat × State σ :=
  let result := s.world.listen document element (.client s.callbacks.length)
  (result.1, { s with world := result.2, callbacks := s.callbacks ++ [fun _ => callback] })

end State

namespace Run

/-- What a call that dispatches does is the errand of its opening. -/
theorem perform_opening (fire : Fire σ) {call : Call σ} {opening : Run σ Errand}
    (opens : call.opening = some opening) (s : State σ) :
    ((perform fire call).result s).2 = ((errand fire opening).result s).2 := by
  have attempted : ∀ work : Run σ Unit, ((attempt work).result s).2 = (work.result s).2 := by
    intro work
    rw [result_attempt]
    rcases work.result s with ⟨(_ | _) | _, _⟩ <;> rfl
  have fired : ∀ (handle : Handle) (signal : Signal), keeping handle (fire signal) =
      errand fire (Opening.keeping handle (pure ⟨[signal], []⟩)) := by
    intro handle signal
    rw [← keeping_errand, errand_pure, fireAll, fireAll, bind_pure_unit]
    rfl
  cases call with
  | trigger hub event =>
      cases opens
      rw [← fired]
      exact attempted _
  | write model attributes =>
      cases opens
      rw [← write_eq]
      exact attempted _
  | assign accessor value =>
      cases opens
      rw [← assign_eq]
      exact attempted _
  | bindComputed model definitions =>
      cases opens
      rw [← bindComputed_eq_errand]
      exact attempted _
  | announceEdit document element =>
      cases opens
      rw [← fired]
      exact attempted _
  | typeInto document element text =>
      cases opens
      rw [← typeInto_eq]
      exact attempted _
  | _ => cases opens

/-- A call that dispatches nothing returns. -/
theorem perform_quiet (fire : Fire σ) {call : Call σ} (quiet : call.opening = none) (s : State σ) :
    ∃ answer t, (perform fire call).result s = (.ok answer, t) := by
  have attempted : ∀ {α : Type} {work : Run σ α}, Concludes work →
      ∃ answer t, (attempt work).result s = (.ok answer, t) := by
    intro α work concludes
    rw [result_attempt]
    rcases worked : work.result s with ⟨(error | _) | a, t⟩
    · exact ⟨_, _, rfl⟩
    · exact absurd worked (concludes s t)
    · exact ⟨_, _, rfl⟩
  cases call with
  | attach document element env editable resolved => exact attempted (concludes_attach _ _ _ _ _)
  | bindView view => exact attempted (concludes_bindView view)
  | trigger hub event => cases quiet
  | write model attributes => cases quiet
  | assign accessor value => cases quiet
  | bindComputed model definitions => cases quiet
  | announceEdit document element => cases quiet
  | typeInto document element text => cases quiet
  | _ => exact ⟨_, _, rfl⟩

/-- What a listener does that is not a client's is the errand of its opening. -/
theorem react_opening (fire : Fire σ) {event : Event} {reaction : Reaction}
    {opening : Run σ Errand} (opens : reaction.opening event = some opening) :
    react fire event reaction = errand fire opening := by
  cases reaction with
  | client callback => cases opens
  | refresh model property =>
      cases opens
      exact refresh_eq fire model property
  | reapply binding slot =>
      cases opens
      rw [errand_bind, errand_nothing, bind_pure_unit]
      rfl
  | push binding slot =>
      cases opens
      exact push_eq fire binding slot

/-! ## The moments of a run -/

section Moments

variable (visit : Signal → State σ → List (Moment σ)) (fire : Fire σ)

def fireMoments : List Signal → State σ → List (Moment σ)
  | [], _ => []
  | signal :: rest, s =>
      visit signal s ++
        match (fire signal).result s with
        | (.ok _, t) => fireMoments rest t
        | (.error _, _) => []

def errandMoments (opening : Run σ Errand) (s : State σ) : List (Moment σ) :=
  match opening.result s with
  | (.ok settled, t) => fireMoments visit fire settled.signals t
  | (.error _, _) => []

def openingMoments : Option (Run σ Errand) → State σ → List (Moment σ)
  | some opening, s => errandMoments visit fire opening s
  | none, _ => []

/-- The moments of a program. -/
def execMoments : Program σ → State σ → List (Moment σ)
  | .done, _ => []
  | .fail _, _ => []
  | .call call next, s =>
      ⟨.making call, s⟩ :: openingMoments visit fire call.opening s ++
        match (perform fire call).result s with
        | (.ok answer, t) => ⟨.made call answer, t⟩ :: execMoments (next answer) t
        | (.error _, _) => []
  | .subscribe hub event callback next, s =>
      let result := s.subscribe hub event callback
      ⟨.subscribed result.1 s.callbacks.length, result.2⟩ :: execMoments (next result.1) result.2
  | .listen document element callback next, s =>
      let result := s.listen document element callback
      execMoments (next result.1) result.2
  | .look next, s => execMoments (next s.world s.client) s
  | .change f next, s => execMoments next { s with client := f s.client }

def reactMoments (event : Event) (reaction : Reaction) (s : State σ) : List (Moment σ) :=
  match reaction with
  | .client callback =>
      match s.callbacks[callback]? with
      | some program => execMoments visit fire (program event) s
      | none => []
  | other => openingMoments visit fire (other.opening event) s

/-- The moments of calling listeners. -/
def deliverMoments (signal : Signal) (began : Nat) :
    List (Nat × Reaction) → State σ → List (Moment σ)
  | [], _ => []
  | (id, reaction) :: rest, s =>
      if isRegistered s.world signal id then
        let called := s.alter (.happen (.called began id))
        ⟨.calling signal began id reaction, called⟩ ::
            reactMoments visit fire (eventOf signal) reaction called ++
          match (react fire (eventOf signal) reaction).result called with
          | (.ok _, t) => deliverMoments signal began rest t
          | (.error _, _) => []
      else deliverMoments signal began rest s

end Moments

def dispatchMoments : Nat → Signal → State σ → List (Moment σ)
  | 0, _, _ => []
  | depth + 1, signal, s =>
      ⟨.dispatching signal, s⟩ ::
        deliverMoments (dispatchMoments depth) (dispatch depth) signal s.world.journal.length
          (listeners s.world signal) (s.alter (.happen (.dispatched signal)))

/-- The moments of a run, in the order in which it gets to them. -/
def moments (depth : Nat) (program : Program σ) (s : State σ) : List (Moment σ) :=
  execMoments (dispatchMoments depth) (dispatch depth) program s

/-! ## Going on past moments

What runs and what it passes go together: one lemma for each part of the interpreter says where
it comes to and which moments it passes on the way. -/

section Onwards

variable (visit : Signal → State σ → List (Moment σ)) (fire : Fire σ) (s : State σ)

/-- After the first dispatch there are no more, or the others follow. -/
theorem fireAll_cons (signal : Signal) (rest : List Signal) :
    let t := ((fire signal).result s).2
    fireMoments visit fire (signal :: rest) s = visit signal s ∧
        ((fireAll fire (signal :: rest)).result s).2 = t ∨
      fireMoments visit fire (signal :: rest) s =
          visit signal s ++ fireMoments visit fire rest t ∧
        ((fireAll fire (signal :: rest)).result s).2 = ((fireAll fire rest).result t).2 := by
  rcases fired : (fire signal).result s with ⟨halt | ⟨⟩, t⟩
  · rw [fireAll, result_bind_error fired, fireMoments, fired, List.append_nil]
    exact Or.inl ⟨rfl, rfl⟩
  · rw [fireAll, result_bind_ok fired, fireMoments, fired]
    exact Or.inr ⟨rfl, rfl⟩

/-- An errand ends where its opening fails, or after its dispatches. -/
theorem errand_ends (opening : Run σ Errand) :
    (∃ halt t, opening.result s = (.error halt, t) ∧ errandMoments visit fire opening s = [] ∧
        ((errand fire opening).result s).2 = t) ∨
      ∃ settled t, opening.result s = (.ok settled, t) ∧
        errandMoments visit fire opening s = fireMoments visit fire settled.signals t ∧
        ((errand fire opening).result s).2 =
          ((fireAll fire settled.signals).result t).2.alter settled.close := by
  rcases worked : opening.result s with ⟨halt | settled, t⟩
  · rw [errand, result_bind_error worked, errandMoments, worked]
    exact Or.inl ⟨halt, t, rfl, rfl, rfl⟩
  · rw [errand, result_bind_ok worked, errandMoments, worked]
    exact Or.inr ⟨settled, t, rfl, rfl, rfl⟩

/-- A call dispatches nothing and returns, or it is an errand, after which the program goes on
unless the errand failed. -/
theorem exec_call (call : Call σ) (next : call.Answer → Program σ) :
    (call.opening = none ∧ ∃ answer t, (perform fire call).result s = (.ok answer, t) ∧
        execMoments visit fire (.call call next) s =
          ⟨.making call, s⟩ :: ⟨.made call answer, t⟩ :: execMoments visit fire (next answer) t ∧
        ((exec fire (.call call next)).result s).2 = ((exec fire (next answer)).result t).2) ∨
      ∃ opening, call.opening = some opening ∧
        let t := ((errand fire opening).result s).2
        (execMoments visit fire (.call call next) s =
            ⟨.making call, s⟩ :: errandMoments visit fire opening s ∧
          ((exec fire (.call call next)).result s).2 = t) ∨
        ∃ answer, execMoments visit fire (.call call next) s =
            ⟨.making call, s⟩ :: errandMoments visit fire opening s ++
              ⟨.made call answer, t⟩ :: execMoments visit fire (next answer) t ∧
          ((exec fire (.call call next)).result s).2 = ((exec fire (next answer)).result t).2 := by
  rcases opens : call.opening with _ | opening
  · obtain ⟨answer, t, performed⟩ := perform_quiet fire opens s
    refine Or.inl ⟨rfl, answer, t, performed, ?_, ?_⟩
    · rw [execMoments, performed, opens]
      rfl
    · rw [exec, result_bind_ok performed]
  · refine Or.inr ⟨opening, rfl, ?_⟩
    rw [← perform_opening fire opens]
    rcases performed : (perform fire call).result s with ⟨halt | answer, t⟩
    · rw [exec, result_bind_error performed, execMoments, performed, opens, List.append_nil]
      exact Or.inl ⟨rfl, rfl⟩
    · rw [exec, result_bind_ok performed, execMoments, performed, opens]
      exact Or.inr ⟨answer, rfl, rfl⟩

/-- A client's listener runs its callback, if that was enrolled; any other is an errand. -/
theorem react_cases (event : Event) (reaction : Reaction) :
    (∃ callback, reaction = .client callback ∧
        (reactMoments visit fire event reaction s = [] ∧
            ((react fire event reaction).result s).2 = s ∨
          ∃ program, program ∈ s.callbacks ∧
            reactMoments visit fire event reaction s =
              execMoments visit fire (program event) s ∧
            ((react fire event reaction).result s).2 =
              ((exec fire (program event)).result s).2)) ∨
      ∃ opening, reaction.opening event = some opening ∧
        reactMoments visit fire event reaction s = errandMoments visit fire opening s ∧
        react fire event reaction = errand fire opening := by
  rcases opens : reaction.opening (σ := σ) event with _ | opening
  · cases reaction with
    | client callback =>
        refine Or.inl ⟨callback, rfl, ?_⟩
        rw [reactMoments, react, result_bind_ok (result_get s)]
        rcases enrolled : s.callbacks[callback]? with _ | program
        · exact Or.inl ⟨rfl, rfl⟩
        · exact Or.inr ⟨program, List.mem_of_getElem? enrolled, rfl, rfl⟩
    | _ => cases opens
  · refine Or.inr ⟨opening, rfl, ?_, react_opening fire opens⟩
    cases reaction with
    | client callback => cases opens
    | _ => rw [reactMoments, opens, openingMoments]; rintro _ ⟨⟩

/-- A listener that is not registered any more is passed over.  One that is does what it does,
and then it is the others' turn unless that failed. -/
theorem deliver_cons (signal : Signal) (began id : Nat) (reaction : Reaction)
    (rest : List (Nat × Reaction)) :
    let called := s.alter (.happen (.called began id))
    let t := ((react fire (eventOf signal) reaction).result called).2
    let here := ⟨.calling signal began id reaction, called⟩ ::
      reactMoments visit fire (eventOf signal) reaction called
    (deliverMoments visit fire signal began ((id, reaction) :: rest) s =
          deliverMoments visit fire signal began rest s ∧
        (deliver fire signal began ((id, reaction) :: rest)).result s =
          (deliver fire signal began rest).result s) ∨
      isRegistered s.world signal id = true ∧
        (deliverMoments visit fire signal began ((id, reaction) :: rest) s = here ∧
            ((deliver fire signal began ((id, reaction) :: rest)).result s).2 = t ∨
          deliverMoments visit fire signal began ((id, reaction) :: rest) s =
              here ++ deliverMoments visit fire signal began rest t ∧
            ((deliver fire signal began ((id, reaction) :: rest)).result s).2 =
              ((deliver fire signal began rest).result t).2) := by
  rw [deliver, result_world_bind, deliverMoments]
  by_cases registered : isRegistered s.world signal id = true
  · refine Or.inr ⟨registered, ?_⟩
    rw [if_pos registered, if_pos registered, result_alter_bind]
    rcases reacted : (react fire (eventOf signal) reaction).result
        (s.alter (.happen (.called began id))) with ⟨halt | ⟨⟩, t⟩
    · rw [result_bind_error reacted]
      exact Or.inl ⟨by simp only [reacted, List.append_nil], rfl⟩
    · rw [result_bind_ok reacted]
      exact Or.inr ⟨by simp only [reacted], rfl⟩
  · rw [if_neg registered, if_neg registered]
    exact Or.inl ⟨rfl, rfl⟩

end Onwards

end Run

/-! ## Trails -/

/-- How a run from `start` gets to a state: the moments that it has passed, and the steps
between them.  Between the moment at which a call is made and its opening there is nothing
else: the call is awaited. -/
inductive Trail (start : State σ) : List (Moment σ) → Option (Call σ) → State σ → Prop where
  | start : Trail start [] none start
  /-- Something happens, though no listener is called. -/
  | noted {past : List (Moment σ)} {s : State σ} (trail : Trail start past none s)
      (happening : Happening) (plain : ∀ began id, happening ≠ .called began id) :
      Trail start past none (s.alter (.happen happening))
  | changed {past : List (Moment σ)} {s : State σ} (trail : Trail start past none s) (f : σ → σ) :
      Trail start past none { s with client := f s.client }
  | listened {past : List (Moment σ)} {s : State σ} (trail : Trail start past none s)
      (document : Ref .document) (element : Ref .element) (callback : Program σ) :
      Trail start past none (s.listen document element callback).2
  | subscribed {past : List (Moment σ)} {s : State σ} (trail : Trail start past none s)
      (hub : Ref .hub) (event : String) (callback : Event → Program σ) :
      Trail start
        (past ++ [⟨.subscribed (s.subscribe hub event callback).1 s.callbacks.length,
          (s.subscribe hub event callback).2⟩]) none (s.subscribe hub event callback).2
  | making {past : List (Moment σ)} {s : State σ} (trail : Trail start past none s)
      (call : Call σ) : Trail start (past ++ [⟨.making call, s⟩]) (some call) s
  /-- A call that dispatches nothing has returned. -/
  | answered {past : List (Moment σ)} {s t : State σ} {call : Call σ} {fire : Fire σ}
      {answer : call.Answer} (trail : Trail start past (some call) s)
      (quiet : call.opening = none) (performed : (Run.perform fire call).result s = (.ok answer, t)) :
      Trail start (past ++ [⟨.made call answer, t⟩]) none t
  /-- A call is ready for its dispatches, or it failed. -/
  | opened {past : List (Moment σ)} {s t : State σ} {call : Call σ} {opening : Run σ Errand}
      {ended : Except Halt Errand} (trail : Trail start past (some call) s)
      (opens : call.opening = some opening) (worked : opening.result s = (ended, t)) :
      Trail start past none t
  /-- A call that dispatches has returned. -/
  | made {past : List (Moment σ)} {s : State σ} (trail : Trail start past none s) {call : Call σ}
      {opening : Run σ Errand} (opens : call.opening = some opening) (answer : call.Answer) :
      Trail start (past ++ [⟨.made call answer, s⟩]) none s
  | dispatching {past : List (Moment σ)} {s : State σ} (trail : Trail start past none s)
      (signal : Signal) : Trail start (past ++ [⟨.dispatching signal, s⟩]) none s
  | calling {past : List (Moment σ)} {began s : State σ} {signal : Signal} {id : Nat}
      {reaction : Reaction} (trail : Trail start past none s)
      (dispatched : ⟨.dispatching signal, began⟩ ∈ past)
      (listed : (id, reaction) ∈ Run.listeners began.world signal)
      (registered : Run.isRegistered s.world signal id = true) :
      Trail start
        (past ++ [⟨.calling signal began.world.journal.length id reaction,
          s.alter (.happen (.called began.world.journal.length id))⟩]) none
        (s.alter (.happen (.called began.world.journal.length id)))
  /-- A listener is ready for its dispatches, or it failed. -/
  | reacted {past : List (Moment σ)} {s t : State σ} {event : Event} {reaction : Reaction}
      {opening : Run σ Errand} {ended : Except Halt Errand} (trail : Trail start past none s)
      (opens : reaction.opening event = some opening) (worked : opening.result s = (ended, t)) :
      Trail start past none t
  | closed {past : List (Moment σ)} {s : State σ} (trail : Trail start past none s)
      (closing : Closing) : Trail start past none (s.alter closing.apply)

/-- The call that is awaited from a moment on. -/
def Moment.awaited (m : Moment σ) : Option (Call σ) :=
  match m.point with
  | .making call => some call
  | _ => none

namespace Trail

variable {start s t : State σ} {past : List (Moment σ)}

/-- A list with something at its end is split before that, or right before it. -/
theorem split_concat {α : Type} {past before after : List α} {a b : α}
    (split : past ++ [a] = before ++ b :: after) :
    (before = past ∧ b = a ∧ after = []) ∨
      ∃ rest, past = before ++ b :: rest ∧ after = rest ++ [a] := by
  rcases List.eq_nil_or_concat after with rfl | ⟨rest, last, rfl⟩
  · obtain ⟨rfl, same⟩ := List.append_inj' split rfl
    exact Or.inl ⟨rfl, (List.singleton_inj.mp same).symm, rfl⟩
  · rw [List.concat_eq_append, ← List.cons_append, ← List.append_assoc] at split
    obtain ⟨rfl, same⟩ := List.append_inj' split rfl
    rw [List.concat_eq_append, List.singleton_inj.mp same]
    exact Or.inr ⟨rest, rfl, rfl⟩

theorem mem_of_upTo {α : Type} {past before after : List α} {a b : α}
    (split : past = before ++ b :: after) (listed : a ∈ before ++ [b]) : a ∈ past := by
  rw [split]
  exact List.mem_append.mpr ((List.mem_append.mp listed).imp_right fun last =>
    List.mem_cons.mpr (Or.inl (List.mem_singleton.mp last)))

/-- A call is awaited since the moment at which it was made. -/
theorem awaits {call : Call σ} (trail : Trail start past (some call) s) :
    ∃ before, past = before ++ [⟨.making call, s⟩] ∧ Trail start before none s := by
  cases trail with
  | making trail => exact ⟨_, rfl, trail⟩

/-- Moments are passed in the state that they have. -/
theorem upTo {awaited : Option (Call σ)} (trail : Trail start past awaited s)
    {before after : List (Moment σ)} {m : Moment σ} (split : past = before ++ m :: after) :
    Trail start (before ++ [m]) m.awaited m.state := by
  have last : ∀ {past : List (Moment σ)} {a : Moment σ} {after : List (Moment σ)},
      Trail start (past ++ [a]) a.awaited a.state →
      (∀ rest, past = before ++ m :: rest → Trail start (before ++ [m]) m.awaited m.state) →
      past ++ [a] = before ++ m :: after → Trail start (before ++ [m]) m.awaited m.state := by
    intro past a after here earlier split
    rcases split_concat split with ⟨rfl, rfl, -⟩ | ⟨rest, was, -⟩
    · exact here
    · exact earlier rest was
  induction trail generalizing after with
  | start => exact absurd split (by simp)
  | noted _ _ _ ih => exact ih split
  | changed _ _ ih => exact ih split
  | listened _ _ _ _ ih => exact ih split
  | subscribed trail hub event callback ih =>
      exact last (.subscribed trail hub event callback) (fun _ => ih) split
  | making trail call ih => exact last (.making trail call) (fun _ => ih) split
  | answered trail quiet performed ih =>
      exact last (.answered trail quiet performed) (fun _ => ih) split
  | opened _ _ _ ih => exact ih split
  | made trail opens answer ih => exact last (.made trail opens answer) (fun _ => ih) split
  | dispatching trail signal ih => exact last (.dispatching trail signal) (fun _ => ih) split
  | calling trail dispatched listed registered ih =>
      exact last (.calling trail dispatched listed registered) (fun _ => ih) split
  | reacted _ _ _ ih => exact ih split
  | closed _ _ ih => exact ih split

theorem close (trail : Trail start past none s) (settled : Errand) :
    Trail start past none (s.alter settled.close) := by
  obtain ⟨signals, closings⟩ := settled
  induction closings generalizing s with
  | nil => exact trail
  | cons closing rest ih => exact ih (trail.closed closing)

end Trail

/-! ## Runs are trails -/

namespace Run

variable {start s : State σ} {past : List (Moment σ)}

/-- What is dispatched leads on along a trail, past these moments. -/
def Visits (start : State σ) (visit : Signal → State σ → List (Moment σ)) (fire : Fire σ) : Prop :=
  ∀ signal past s, Trail start past none s →
    Trail start (past ++ visit signal s) none ((fire signal).result s).2

variable {visit : Signal → State σ → List (Moment σ)} {fire : Fire σ}
  (visits : Visits start visit fire)

include visits

theorem trail_fireAll (signals : List Signal) (trail : Trail start past none s) :
    Trail start (past ++ fireMoments visit fire signals s) none ((fireAll fire signals).result s).2 := by
  induction signals generalizing past s with
  | nil =>
      rw [fireMoments, List.append_nil]
      exact trail
  | cons signal rest ih =>
      have first := visits signal past s trail
      rcases fireAll_cons visit fire s signal rest with ⟨moments, left⟩ | ⟨moments, left⟩
      · rwa [moments, left]
      · rw [moments, left, ← List.append_assoc]
        exact ih first

theorem trail_errand {opening : Run σ Errand}
    (opened : ∀ ended t, opening.result s = (ended, t) → Trail start past none t) :
    Trail start (past ++ errandMoments visit fire opening s) none
      ((errand fire opening).result s).2 := by
  obtain ⟨halt, t, worked, moments, left⟩ | ⟨settled, t, worked, moments, left⟩ :=
    errand_ends visit fire s opening
  · rw [moments, left, List.append_nil]
    exact opened _ t worked
  · rw [moments, left]
    exact (trail_fireAll visits settled.signals (opened _ t worked)).close settled

theorem trail_exec (program : Program σ) (trail : Trail start past none s) :
    Trail start (past ++ execMoments visit fire program s) none
      ((exec fire program).result s).2 := by
  induction program generalizing past s with
  | done =>
      rw [execMoments, List.append_nil]
      exact trail
  | fail error =>
      rw [execMoments, List.append_nil]
      exact trail.noted _ nofun
  | call call next ih =>
      have making := trail.making call
      obtain ⟨quiet, answer, t, performed, moments, left⟩ | ⟨opening, opens, ended⟩ :=
        exec_call visit fire s call next
      · rw [moments, left]
        simpa using ih answer (making.answered quiet performed)
      · have there := trail_errand visits fun _ _ => making.opened opens
        rcases ended with ⟨moments, left⟩ | ⟨answer, moments, left⟩
        · rw [moments, left]
          simpa using there
        · rw [moments, left]
          simpa using ih answer (there.made opens answer)
  | subscribe hub event callback next _ ih =>
      have here := ih (s.subscribe hub event callback).1 (trail.subscribed hub event callback)
      rw [List.append_assoc] at here
      exact here
  | listen document element callback next _ ih =>
      exact ih (s.listen document element callback).1 (trail.listened document element callback)
  | look next ih => exact ih s.world s.client trail
  | change f next ih => exact ih (trail.changed f)

theorem trail_react (event : Event) (reaction : Reaction) (trail : Trail start past none s) :
    Trail start (past ++ reactMoments visit fire event reaction s) none
      ((react fire event reaction).result s).2 := by
  obtain ⟨callback, -, ⟨moments, left⟩ | ⟨program, -, moments, left⟩⟩ | ⟨opening, opens, moments, is⟩ :=
    react_cases visit fire s event reaction
  · rwa [moments, left, List.append_nil]
  · rw [moments, left]
    exact trail_exec visits (program event) trail
  · rw [moments, is]
    exact trail_errand visits fun _ _ => trail.reacted opens

theorem trail_deliver {signal : Signal} {began : State σ}
    (listed : List (Nat × Reaction)) (dispatched : ⟨.dispatching signal, began⟩ ∈ past)
    (among : ∀ l ∈ listed, l ∈ listeners began.world signal) (trail : Trail start past none s) :
    Trail start
      (past ++ deliverMoments visit fire signal began.world.journal.length listed s) none
      ((deliver fire signal began.world.journal.length listed).result s).2 := by
  induction listed generalizing past s with
  | nil =>
      rw [deliverMoments, List.append_nil]
      exact trail
  | cons entry rest ih =>
      obtain ⟨id, reaction⟩ := entry
      have later : ∀ l ∈ rest, l ∈ listeners began.world signal := fun l listed =>
        among l (List.mem_cons_of_mem _ listed)
      obtain ⟨moments, same⟩ | ⟨registered, ended⟩ :=
        deliver_cons visit fire s signal began.world.journal.length id reaction rest
      · rw [moments, same]
        exact ih dispatched later trail
      · have called := trail_react visits (eventOf signal) reaction
          (trail.calling dispatched (among _ List.mem_cons_self) registered)
        rcases ended with ⟨moments, left⟩ | ⟨moments, left⟩
        · rw [moments, left]
          simpa using called
        · rw [moments, left]
          simpa using ih (List.mem_append_left _ (List.mem_append_left _ dispatched)) later called

omit visits in
theorem visits_dispatch (start : State σ) (depth : Nat) :
    Visits start (dispatchMoments depth) (dispatch depth) := by
  induction depth with
  | zero =>
      intro signal past s trail
      rw [dispatchMoments, List.append_nil]
      exact trail
  | succ depth ih =>
      intro signal past s trail
      have delivered := trail_deliver ih (listeners s.world signal)
        (List.mem_append_right past (List.mem_singleton.mpr rfl)) (fun _ => id)
        ((trail.dispatching signal).noted (.dispatched signal) nofun)
      rw [dispatch, result_world_bind, result_alter_bind, dispatchMoments]
      simpa using delivered

omit visits in
/-- A run is a trail, past all its moments. -/
theorem trail_moments (depth : Nat) (program : Program σ) (start : State σ) :
    Trail start (moments depth program start) none ((run depth program).result start).2 :=
  trail_exec (visits_dispatch start depth) program .start

end Run

end LiveBinding
