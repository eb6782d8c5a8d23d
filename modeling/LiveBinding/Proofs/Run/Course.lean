/-
# LiveBinding.Proofs.Run.Course -- how dispatches nest

A trail says what a run passes, one moment after another.  A course says besides which
dispatch each listener is called by, and where each dispatch closes: while a dispatch is on,
nobody is called in its name but by itself, and once it is over nobody is any more
(`Course`).  Every run is a course (`course_moments`).

Therefore the journal of a run can be read back.  Each call in it was made at a moment of the
run, each evaluation belongs to a moment at which a property was about to be refreshed or
properties were about to be bound, and the calls under one tag are those of one dispatch
(`Course.calls_of`).
-/
import LiveBinding.Proofs.Run.Evaluation

namespace LiveBinding

set_option autoImplicit false

variable {σ : Type}

/-- A point at which no properties are bound, and neither a dispatch nor a call begins. -/
def Point.IsPlain : Point σ → Prop
  | .making (.bindComputed _ _) => False
  | .dispatching _ => False
  | .calling _ _ _ _ => False
  | _ => True

/-- How work gets from one state to another, past these moments, while a dispatch that began
at an entry of the journal calls its listeners, or none does. -/
inductive Course : Option Nat → List (Moment σ) → State σ → State σ → Prop where
  | idle {tag : Option Nat} {s t : State σ} (silent : s.world.Silent t.world) : Course tag [] s t
  | onward {tag : Option Nat} {ms ms' : List (Moment σ)} {s t u : State σ}
      (first : Course tag ms s t) (rest : Course tag ms' t u) : Course tag (ms ++ ms') s u
  | mark {tag : Option Nat} (point : Point σ) (s : State σ) (plain : point.IsPlain) :
      Course tag [⟨point, s⟩] s s
  /-- Properties are bound, up to the dispatches that announce them. -/
  | bind {tag : Option Nat} {s t : State σ} {ended : Except Halt Errand} (model : Ref .model)
      (definitions : List (String × Definition σ))
      (worked : (Opening.bindComputed model definitions).result s = (ended, t)) :
      Course tag [⟨.making (.bindComputed model definitions), s⟩] s t
  /-- The dispatch calls a listener, up to the dispatches that the listener causes. -/
  | call {began : Nat} {s t : State σ} (signal : Signal) (id : Nat) (reaction : Reaction)
      (noted : began < s.world.journal.length)
      (silent : ((s.world.happen (.called began id)).answering reaction).Silent t.world) :
      Course (some began)
        [⟨.calling signal began id reaction, s.alter (.happen (.called began id))⟩] s t
  /-- Another dispatch, from its beginning to its end. -/
  | dispatch {tag : Option Nat} {ms : List (Moment σ)} {s t : State σ}
      {ended : Except Halt Unit} (nested : Nat) (signal : Signal)
      (worked : (Run.dispatch (nested + 1) signal).result s = (ended, t))
      (moments : Run.dispatchMoments (nested + 1) signal s = ⟨.dispatching signal, s⟩ :: ms)
      (inside : Course (some s.world.journal.length) ms
        (s.alter (.happen (.dispatched signal))) t) :
      Course tag (⟨.dispatching signal, s⟩ :: ms) s t

namespace Course

variable {tag : Option Nat} {ms : List (Moment σ)} {s t u : State σ}

theorem refl (tag : Option Nat) (s : State σ) : Course tag [] s s :=
  .idle (World.idle_of_eq rfl)

/-- The journal goes on. -/
theorem before (course : Course tag ms s t) : s.world.Before t.world := by
  induction course with
  | idle silent => exact silent.1
  | onward _ _ ih ih' => exact ih.trans ih'
  | mark => exact .refl _
  | bind model definitions worked => exact (Run.idle_bindComputed worked).1
  | @call began s _ _ id reaction _ silent =>
      exact ((World.before_happen _ _).trans (World.idle_answering _ _).1).trans silent.1
  | dispatch _ _ _ _ _ ih => exact (World.before_happen _ _).trans ih

theorem after (silent : s.world.Silent t.world) (rest : Course tag ms t u) : Course tag ms s u :=
  (Course.idle silent).onward rest

theorem rest (first : Course tag ms s t) (silent : t.world.Silent u.world) :
    Course tag ms s u := by
  have both : Course tag (ms ++ []) s u := first.onward (.idle silent)
  rwa [List.append_nil] at both

theorem close (first : Course tag ms s t) (settled : Errand) :
    Course tag ms s (t.alter settled.close) := by
  obtain ⟨signals, closings⟩ := settled
  induction closings generalizing t with
  | nil => exact first
  | cons closing rest ih =>
      have closed : t.world.Silent (t.alter closing.apply).world := by
        cases closing with
        | release handle => exact World.idle_of_eq (World.journal_release handle t.world)
        | resetSpans spans => exact World.idle_of_eq rfl
      exact ih (first.rest closed)

end Course

/-! ## Runs are courses -/

namespace Run

variable {tag : Option Nat} {ms : List (Moment σ)} {s t : State σ}

def Courses (visit : Signal → State σ → List (Moment σ)) (fire : Fire σ) : Prop :=
  ∀ tag signal s, Course tag (visit signal s) s ((fire signal).result s).2

variable {visit : Signal → State σ → List (Moment σ)} {fire : Fire σ}
  (courses : Courses visit fire)

include courses

theorem course_fireAll (tag : Option Nat) (signals : List Signal) (s : State σ) :
    Course tag (fireMoments visit fire signals s) s ((fireAll fire signals).result s).2 := by
  induction signals generalizing s with
  | nil => exact .refl tag s
  | cons signal rest ih =>
      have first := courses tag signal s
      rcases fireAll_cons visit fire s signal rest with ⟨moments, left⟩ | ⟨moments, left⟩
      · rwa [moments, left]
      · rw [moments, left]
        exact first.onward (ih _)

/-- An errand goes on from where its opening has led. -/
theorem course_errand {opening : Run σ Errand} {u : State σ}
    (opened : ∀ ended t, opening.result u = (ended, t) → Course tag ms s t) :
    Course tag (ms ++ errandMoments visit fire opening u) s
      ((errand fire opening).result u).2 := by
  obtain ⟨halt, t, worked, moments, left⟩ | ⟨settled, t, worked, moments, left⟩ :=
    errand_ends visit fire u opening
  · rw [moments, left, List.append_nil]
    exact opened _ t worked
  · rw [moments, left]
    exact ((opened _ t worked).onward (course_fireAll courses tag settled.signals t)).close settled

omit courses in
/-- A call is made, up to its dispatches. -/
theorem course_making {call : Call σ} {opening : Run σ Errand} {ended : Except Halt Errand}
    (opens : call.opening = some opening) (worked : opening.result s = (ended, t)) :
    Course tag [⟨.making call, s⟩] s t := by
  by_cases binds : ∃ model definitions, call = .bindComputed model definitions
  · obtain ⟨model, definitions, rfl⟩ := binds
    cases opens
    exact .bind model definitions worked
  · have idles : Idles (fun _ => False) opening s :=
      idles_opening opens fun model definitions same => binds ⟨model, definitions, same⟩
    rw [Idles, Leads, worked] at idles
    refine (Course.mark (.making call) s ?_).rest idles
    cases call with
    | bindComputed model definitions => exact absurd ⟨model, definitions, rfl⟩ binds
    | _ => trivial

theorem course_exec (tag : Option Nat) (program : Program σ) (s : State σ) :
    Course tag (execMoments visit fire program s) s ((exec fire program).result s).2 := by
  have marked : ∀ (point : Point σ) (s : State σ), point.IsPlain → Course tag [⟨point, s⟩] s s :=
    .mark
  induction program generalizing s with
  | done => exact .refl tag s
  | fail error => exact .idle (World.idle_failed error s.world)
  | call call next ih =>
      obtain ⟨quiet, answer, t, performed, moments, left⟩ | ⟨opening, opens, ended⟩ :=
        exec_call visit fire s call next
      · have plain : (Point.making call).IsPlain := by
          cases call with
          | bindComputed => cases quiet
          | _ => trivial
        have made := (marked (.making call) s plain).rest (idle_perform quiet performed)
        rw [moments, left]
        exact made.onward ((marked (.made call answer) t trivial).onward (ih answer t))
      · have there : Course tag _ s _ := course_errand courses (u := s) fun _ _ => course_making opens
        rcases ended with ⟨moments, left⟩ | ⟨answer, moments, left⟩
        · rw [moments, left]
          exact there
        · rw [moments, left]
          exact there.onward ((marked (.made call answer) _ trivial).onward (ih answer _))
  | subscribe hub event callback next _ ih =>
      have subscribed : s.world.Silent (s.subscribe hub event callback).2.world :=
        World.idle_of_eq (World.journal_subscribe hub event _ s.world)
      have here := marked (.subscribed (s.subscribe hub event callback).1 s.callbacks.length)
        (s.subscribe hub event callback).2 trivial
      exact .after subscribed (here.onward (ih _ _))
  | listen document element callback next _ ih =>
      have listening : s.world.Silent (s.listen document element callback).2.world :=
        World.idle_of_eq (World.journal_listen document element _ s.world)
      exact .after listening (ih _ _)
  | look next ih => exact ih s.world s.client s
  | change f next ih =>
      exact .after (t := { s with client := f s.client }) (World.idle_of_eq rfl) (ih _)

/-- A listener is called and does what it does. -/
theorem course_call (signal : Signal) {began : Nat} (id : Nat) (reaction : Reaction)
    (noted : began < s.world.journal.length) :
    Course (some began)
      (⟨.calling signal began id reaction, s.alter (.happen (.called began id))⟩ ::
        reactMoments visit fire (eventOf signal) reaction (s.alter (.happen (.called began id))))
      s ((react fire (eventOf signal) reaction).result (s.alter (.happen (.called began id)))).2 := by
  have call := fun {t : State σ} => Course.call (t := t) signal id reaction noted
  obtain ⟨callback, rfl, ended⟩ | ⟨opening, opens, moments, is⟩ := react_cases visit fire
    (s.alter (.happen (.called began id))) (eventOf signal) reaction
  · have here := call (t := s.alter (.happen (.called began id))) (refl _)
    rcases ended with ⟨moments, left⟩ | ⟨program, -, moments, left⟩
    · rwa [moments, left]
    · rw [moments, left]
      exact here.onward (course_exec courses (some began) _ _)
  · rw [moments, is]
    exact course_errand courses fun _ _ worked => call (idle_reaction opens worked)

theorem course_deliver {signal : Signal} {began : Nat} (listed : List (Nat × Reaction))
    {s : State σ} (noted : began < s.world.journal.length) :
    Course (some began) (deliverMoments visit fire signal began listed s) s
      ((deliver fire signal began listed).result s).2 := by
  induction listed generalizing s with
  | nil => exact .refl _ s
  | cons entry rest ih =>
      obtain ⟨id, reaction⟩ := entry
      obtain ⟨moments, same⟩ | ⟨-, ended⟩ := deliver_cons visit fire s signal began id reaction rest
      · rw [moments, same]
        exact ih noted
      · have called := course_call courses signal id reaction noted
        rcases ended with ⟨moments, left⟩ | ⟨moments, left⟩
        · rw [moments, left]
          exact called
        · rw [moments, left]
          exact called.onward (ih (Nat.lt_of_lt_of_le noted called.before.length_le))

omit courses in
theorem courses_dispatch (depth : Nat) :
    Courses (σ := σ) (dispatchMoments depth) (dispatch depth) := by
  induction depth with
  | zero => exact fun tag _ s => .refl tag s
  | succ depth ih =>
      intro tag signal s
      have noted : s.world.journal.length <
          (s.alter (.happen (.dispatched signal))).world.journal.length := by
        simp [World.happen]
      refine .dispatch depth signal rfl rfl ?_
      rw [dispatch, result_world_bind, result_alter_bind]
      exact course_deliver ih _ noted

omit courses in
/-- A run is a course, past all its moments. -/
theorem course_moments (depth : Nat) (program : Program σ) (s : State σ) :
    Course none (moments depth program s) s ((run depth program).result s).2 :=
  course_exec (courses_dispatch depth) none program s

end Run

/-! ## What the journal tells -/

def World.happened (w : World σ) (i : Nat) : Option Happening :=
  w.journal[i]?.map (·.happening)

namespace World

variable {v w : World σ} {chosen : Ref .model → Prop} {happening : Happening} {i : Nat}

theorem happened_happen (happening : Happening) (w : World σ) :
    (w.happen happening).happened w.journal.length = some happening := by
  simp [happened, happen]

theorem lt_of_happened (happened : w.happened i = some happening) : i < w.journal.length := by
  by_contra beyond
  rw [World.happened, List.getElem?_eq_none (by omega)] at happened
  cases happened

/-- What was noted stays where it was noted. -/
theorem Before.happened_eq (before : v.Before w) (old : i < v.journal.length) :
    w.happened i = v.happened i := by
  obtain ⟨added, same⟩ := before
  rw [happened, ← same, List.getElem?_append_left old, happened]

theorem Before.happened (before : v.Before w) (was : v.happened i = some happening) :
    w.happened i = some happening :=
  (before.happened_eq (lt_of_happened was)).trans was

/-- What happened since something did is that, or it happened later. -/
theorem Before.first_or_later {first : Happening} (before : (v.happen first).Before w)
    (late : v.journal.length ≤ i) (happened : w.happened i = some happening) :
    i = v.journal.length ∧ happening = first ∨ (v.happen first).journal.length ≤ i := by
  rcases Nat.eq_or_lt_of_le late with rfl | after
  · rw [before.happened (happened_happen first v)] at happened
    exact Or.inl ⟨rfl, (Option.some.inj happened).symm⟩
  · exact Or.inr (by simp only [happen, List.length_append, List.length_singleton]; omega)

/-- What was noted between two worlds is such. -/
theorem Notes.happened {kind : Entry → Prop} (notes : v.Notes kind w)
    (late : v.journal.length ≤ i) (happened : w.happened i = some happening) :
    ∃ entry, kind entry ∧ entry.happening = happening := by
  obtain ⟨entry, there, same⟩ := Option.map_eq_some_iff.mp happened
  refine ⟨entry, notes entry (List.mem_of_getElem? (i := i - v.journal.length) ?_), same⟩
  rwa [List.getElem?_drop, Nat.add_sub_cancel' late]

theorem Idle.happened_ne_called {began id : Nat} (idle : v.Idle chosen w)
    (late : v.journal.length ≤ i) : w.happened i ≠ some (.called began id) := by
  intro happened
  obtain ⟨entry, aside, same⟩ := idle.2.happened late happened
  rw [Entry.IsAside, same] at aside
  cases aside.1

theorem Idle.of_evaluated {model : Ref .model} {name : String} (idle : v.Idle chosen w)
    (late : v.journal.length ≤ i) (happened : w.happened i = some (.evaluated model name)) :
    chosen model := by
  obtain ⟨entry, aside, same⟩ := idle.2.happened late happened
  exact aside.2 model name same

end World

/-- The evaluation at an entry of the journal belongs to the moment: a listener is about to
refresh its property there, or properties are about to be bound. -/
def Moment.Evaluates (model : Ref .model) (name : String) (i : Nat) (m : Moment σ) : Prop :=
  match m.point with
  | .calling _ _ _ reaction =>
      reaction.evaluates m.state.world = some (model, name) ∧ i = m.state.world.journal.length
  | .making (.bindComputed owner definitions) =>
      owner = model ∧ m.state.world.journal.length ≤ i ∧
        i < ((Opening.bindComputed owner definitions).result m.state).2.world.journal.length
  | _ => False

/-- The journal tells of the moment: of the dispatch that begins there, or of the call that was
made and of the evaluation that follows it. -/
structure Moment.IsTold (w : World σ) (m : Moment σ) : Prop where
  dispatched : ∀ signal, m.point = .dispatching signal →
    w.happened m.state.world.journal.length = some (.dispatched signal)
  called : ∀ signal began id reaction, m.point = .calling signal began id reaction →
    ∃ i, m.state.world.journal.length = i + 1 ∧ w.happened i = some (.called began id) ∧
      ∀ model name, reaction.evaluates m.state.world = some (model, name) →
        w.happened (i + 1) = some (.evaluated model name)

theorem Moment.IsTold.before {m : Moment σ} {v w : World σ} (told : m.IsTold v)
    (before : v.Before w) : m.IsTold w where
  dispatched signal point := before.happened (told.dispatched signal point)
  called signal began id reaction point := by
    obtain ⟨i, length, called, evaluated⟩ := told.called signal began id reaction point
    exact ⟨i, length, before.happened called, fun model name evaluates =>
      before.happened (evaluated model name evaluates)⟩

namespace Course

variable {tag : Option Nat} {ms : List (Moment σ)} {s t : State σ}

/-- Each moment is on the way. -/
theorem passes (course : Course tag ms s t) :
    ∀ m ∈ ms, s.world.Before m.state.world ∧ m.state.world.Before t.world := by
  induction course with
  | idle => exact fun m none => absurd none List.not_mem_nil
  | onward first rest ih ih' =>
      intro m listed
      rcases List.mem_append.mp listed with early | late
      · exact ⟨(ih m early).1, (ih m early).2.trans rest.before⟩
      · exact ⟨first.before.trans (ih' m late).1, (ih' m late).2⟩
  | mark point s plain =>
      intro m listed
      rw [List.mem_singleton.mp listed]
      exact ⟨.refl _, .refl _⟩
  | bind model definitions worked =>
      intro m listed
      rw [List.mem_singleton.mp listed]
      exact ⟨.refl _, (Run.idle_bindComputed worked).1⟩
  | call signal id reaction noted silent =>
      intro m listed
      rw [List.mem_singleton.mp listed]
      exact ⟨World.before_happen _ _, (World.idle_answering _ _).1.trans silent.1⟩
  | @dispatch _ _ s _ _ nested signal worked moments inside ih =>
      have began := World.before_happen (.dispatched signal) s.world
      intro m listed
      rcases List.mem_cons.mp listed with rfl | within
      · exact ⟨.refl _, began.trans inside.before⟩
      · exact ⟨began.trans (ih m within).1, (ih m within).2⟩

/-- The journal tells of each moment. -/
theorem tells (course : Course tag ms s t) : ∀ m ∈ ms, m.IsTold t.world := by
  induction course with
  | idle => exact fun m none => absurd none List.not_mem_nil
  | onward first rest ih ih' =>
      intro m listed
      rcases List.mem_append.mp listed with early | late
      · exact (ih m early).before rest.before
      · exact ih' m late
  | mark point s plain =>
      intro m listed
      rw [List.mem_singleton.mp listed]
      exact ⟨by rintro signal rfl; exact plain.elim, by rintro _ _ _ _ rfl; exact plain.elim⟩
  | bind model definitions worked =>
      intro m listed
      rw [List.mem_singleton.mp listed]
      exact ⟨by rintro _ ⟨⟩, by rintro _ _ _ _ ⟨⟩⟩
  | @call began s t signal id reaction noted silent =>
      intro m listed
      rw [List.mem_singleton.mp listed]
      have answered := (World.idle_answering reaction (s.world.happen (.called began id))).1.trans
        silent.1
      have length : (s.world.happen (.called began id)).journal.length =
          s.world.journal.length + 1 := by simp [World.happen]
      refine ⟨by rintro _ ⟨⟩, ?_⟩
      rintro _ _ _ _ ⟨⟩
      refine ⟨s.world.journal.length, length, answered.happened (World.happened_happen _ _),
        fun model name evaluates => ?_⟩
      rw [State.alter_world] at evaluates
      rw [World.answering_of_some evaluates] at silent
      rw [← length]
      exact silent.1.happened (World.happened_happen (.evaluated model name) _)
  | @dispatch _ _ s t _ nested signal worked moments inside ih =>
      intro m listed
      rcases List.mem_cons.mp listed with rfl | within
      · refine ⟨?_, by rintro _ _ _ _ ⟨⟩⟩
        rintro _ ⟨⟩
        exact inside.before.happened (World.happened_happen _ _)
      · exact ih m within

/-- Each evaluation belongs to a moment. -/
theorem evaluated (course : Course tag ms s t) {model : Ref .model} {name : String} {i : Nat}
    (late : s.world.journal.length ≤ i)
    (happened : t.world.happened i = some (.evaluated model name)) :
    ∃ m ∈ ms, m.Evaluates model name i := by
  induction course with
  | idle silent => exact (silent.of_evaluated late happened).elim
  | @onward _ _ _ s t u first rest ih ih' =>
      rcases Nat.lt_or_ge i t.world.journal.length with old | new
      · obtain ⟨m, listed, evaluates⟩ := ih late ((rest.before.happened_eq old).symm.trans happened)
        exact ⟨m, List.mem_append_left _ listed, evaluates⟩
      · obtain ⟨m, listed, evaluates⟩ := ih' new happened
        exact ⟨m, List.mem_append_right _ listed, evaluates⟩
  | mark point s plain =>
      exact absurd (World.lt_of_happened happened) (by omega)
  | @bind _ s t _ owner definitions worked =>
      refine ⟨_, List.mem_singleton.mpr rfl,
        (Run.idle_bindComputed worked).of_evaluated late happened, late, ?_⟩
      rw [worked]
      exact World.lt_of_happened happened
  | @call began s t signal id reaction noted silent =>
      have answered := World.idle_answering reaction (s.world.happen (.called began id))
      refine ⟨_, List.mem_singleton.mpr rfl, ?_⟩
      rcases (answered.1.trans silent.1).first_or_later late happened with ⟨-, other⟩ | after
      · cases other
      rcases evaluates : reaction.evaluates (s.world.happen (.called began id)) with
        _ | ⟨model', name'⟩
      · rw [World.answering_of_none evaluates] at silent
        exact (silent.of_evaluated after happened).elim
      · rw [World.answering_of_some evaluates] at silent
        rcases silent.1.first_or_later after happened with ⟨here, same⟩ | later
        · cases same
          exact ⟨evaluates, here⟩
        · exact (silent.of_evaluated later happened).elim
  | @dispatch _ _ s t _ nested signal worked moments inside ih =>
      rcases inside.before.first_or_later late happened with ⟨-, other⟩ | after
      · cases other
      obtain ⟨m, listed, evaluates⟩ := ih after happened
      exact ⟨m, List.mem_cons_of_mem _ listed, evaluates⟩

/-- Each call was made at a moment, after its dispatch had begun. -/
theorem called (course : Course tag ms s t) {began id i : Nat} (late : s.world.journal.length ≤ i)
    (happened : t.world.happened i = some (.called began id)) :
    began < i ∧ ∃ m ∈ ms, m.state.world.journal.length = i + 1 ∧
      ∃ signal reaction, m.point = .calling signal began id reaction := by
  induction course with
  | idle silent => exact absurd happened (silent.happened_ne_called late)
  | @onward _ _ _ s t u first rest ih ih' =>
      rcases Nat.lt_or_ge i t.world.journal.length with old | new
      · obtain ⟨noted, m, listed, calls⟩ :=
          ih late ((rest.before.happened_eq old).symm.trans happened)
        exact ⟨noted, m, List.mem_append_left _ listed, calls⟩
      · obtain ⟨noted, m, listed, calls⟩ := ih' new happened
        exact ⟨noted, m, List.mem_append_right _ listed, calls⟩
  | mark point s plain => exact absurd (World.lt_of_happened happened) (by omega)
  | @bind _ s t _ owner definitions worked =>
      exact absurd happened ((Run.idle_bindComputed worked).happened_ne_called late)
  | @call began' s t signal id' reaction noted silent =>
      have answered : (s.world.happen (.called began' id')).Idle (fun _ => True) t.world :=
        IsTrans.trans _ _ _ (World.idle_answering reaction _) (silent.mono fun _ => False.elim)
      rcases answered.1.first_or_later late happened with ⟨rfl, same⟩ | after
      · cases same
        exact ⟨noted, _, List.mem_singleton.mpr rfl, by simp [World.happen], signal, reaction, rfl⟩
      · exact absurd happened (answered.happened_ne_called after)
  | @dispatch _ _ s t _ nested signal worked moments inside ih =>
      rcases inside.before.first_or_later late happened with ⟨-, other⟩ | after
      · cases other
      obtain ⟨noted, m, listed, calls⟩ := ih after happened
      exact ⟨noted, m, List.mem_cons_of_mem _ listed, calls⟩

/-- What belongs to a moment is noted after it, and before the course has ended. -/
theorem evaluates_lt (course : Course tag ms s t) {m : Moment σ} (listed : m ∈ ms)
    {model : Ref .model} {name : String} {i : Nat} (evaluates : m.Evaluates model name i) :
    i < t.world.journal.length := by
  induction course with
  | idle => cases listed
  | onward first rest ih ih' =>
      rcases List.mem_append.mp listed with early | late
      · exact Nat.lt_of_lt_of_le (ih early) rest.before.length_le
      · exact ih' late
  | mark point s plain =>
      cases List.mem_singleton.mp listed
      cases point with
      | making call => cases call <;> first | exact plain.elim | exact evaluates.elim
      | calling => exact plain.elim
      | _ => exact evaluates.elim
  | bind model definitions worked =>
      cases List.mem_singleton.mp listed
      have before_end := evaluates.2.2
      rwa [worked] at before_end
  | call signal id reaction noted silent =>
      cases List.mem_singleton.mp listed
      obtain ⟨evaluates, rfl⟩ := evaluates
      rw [State.alter_world] at evaluates ⊢
      rw [World.answering_of_some evaluates] at silent
      exact World.lt_of_happened (silent.1.happened (World.happened_happen _ _))
  | dispatch nested signal worked moments inside ih =>
      rcases List.mem_cons.mp listed with rfl | within
      · exact evaluates.elim
      · exact ih within

/-- Moments come in the order of the journal, and what belongs to one is noted before the
next. -/
theorem ordered (course : Course tag ms s t) :
    ms.Pairwise fun m m' => m.state.world.Before m'.state.world ∧
      ∀ model name i, m.Evaluates model name i → i < m'.state.world.journal.length := by
  induction course with
  | idle => exact .nil
  | onward first rest ih ih' =>
      refine List.pairwise_append.mpr ⟨ih, ih', fun m early m' late => ?_⟩
      have after := (rest.passes m' late).1
      exact ⟨(first.passes m early).2.trans after, fun model name i evaluates =>
        Nat.lt_of_lt_of_le (first.evaluates_lt early evaluates) after.length_le⟩
  | mark => exact List.pairwise_singleton _ _
  | bind => exact List.pairwise_singleton _ _
  | call => exact List.pairwise_singleton _ _
  | dispatch nested signal worked moments inside ih =>
      refine List.pairwise_cons.mpr ⟨fun m within => ⟨?_, fun _ _ _ => False.elim⟩, ih⟩
      exact (World.before_happen _ _).trans (inside.passes m within).1

/-! ## Calls in the name of a dispatch -/

/-- Whoever is called on the way is called by the dispatch that is on, or by one that began on
the way. -/
theorem late (course : Course tag ms s t) :
    s.world.Notes (fun entry => ∀ began id, entry.happening.call? = some (began, id) →
      tag = some began ∨ s.world.journal.length ≤ began) t.world := by
  induction course with
  | idle silent =>
      exact silent.2.mono fun entry aside began id called => by
        rw [aside.1] at called
        cases called
  | onward first rest ih ih' =>
      refine ih.trans first.before rest.before (ih'.mono fun entry dated began id called => ?_)
      exact (dated began id called).imp_right first.before.length_le.trans
  | mark => exact World.notes_of_eq rfl
  | bind model definitions worked =>
      exact (Run.idle_bindComputed worked).2.mono fun entry aside began id called => by
        rw [aside.1] at called
        cases called
  | @call began s t signal id reaction noted silent =>
      have answered : (s.world.happen (.called began id)).Idle (fun _ => True) t.world :=
        IsTrans.trans _ _ _ (World.idle_answering reaction _) (silent.mono fun _ => False.elim)
      refine World.Notes.trans (World.before_happen _ _) answered.1
        (World.notes_happen.mpr fun began id called => ?_)
        (answered.2.mono fun entry aside began id called => ?_)
      · cases called
        exact Or.inl rfl
      · rw [aside.1] at called
        cases called
  | @dispatch _ _ s t _ nested signal worked moments inside ih =>
      have began := World.before_happen (.dispatched signal) s.world
      refine World.Notes.trans began inside.before (World.notes_happen.mpr (by rintro _ _ ⟨⟩))
        (ih.mono fun entry dated tag id called => Or.inr ?_)
      rcases dated tag id called with same | later
      · exact (Option.some.inj same).le
      · exact began.length_le.trans later

/-- A dispatch that is passed runs from its beginning to its end, past moments that are passed
too, and the calls in its name are those that it has made then. -/
theorem calls_of (course : Course tag ms s t) (noted : ∀ began ∈ tag, began < s.world.journal.length)
    {signal : Signal} {begun : State σ} (passed : ⟨.dispatching signal, begun⟩ ∈ ms) :
    ∃ nested ended u, (Run.dispatch (nested + 1) signal).result begun = (ended, u) ∧
      (∀ m ∈ Run.dispatchMoments (nested + 1) signal begun, m ∈ ms) ∧
      s.world.Before begun.world ∧ begun.world.journal.length < u.world.journal.length ∧
      u.world.Before t.world ∧
      t.world.calls begun.world.journal.length = u.world.calls begun.world.journal.length := by
  induction course with
  | idle => cases passed
  | @onward _ _ _ s t v first rest ih ih' =>
      rcases List.mem_append.mp passed with early | late
      · obtain ⟨nested, ended, u, worked, within, since, longer, before, calls⟩ := ih noted early
        refine ⟨nested, ended, u, worked, fun m listed => List.mem_append_left _ (within m listed),
          since, longer, before.trans rest.before, ?_⟩
        rw [← calls]
        -- what is called later is called by later dispatches, or by the one around this one
        refine World.calls_of_other rest.before (rest.late.mono fun entry dated id called => ?_)
          (longer.le.trans before.length_le)
        rcases dated _ id called with same | later
        · have earlier := noted _ same
          have here := since.length_le
          omega
        · have ended := before.length_le
          omega
      · have longer := first.before.length_le
        obtain ⟨nested, ended, u, worked, within, since, rest⟩ := ih'
          (fun began open_ => Nat.lt_of_lt_of_le (noted began open_) longer) late
        exact ⟨nested, ended, u, worked, fun m listed => List.mem_append_right _ (within m listed),
          first.before.trans since, rest⟩
  | mark point s plain =>
      cases List.mem_singleton.mp passed
      exact plain.elim
  | bind => cases List.mem_singleton.mp passed
  | call => cases List.mem_singleton.mp passed
  | @dispatch _ _ s t ended nested signal worked moments inside ih =>
      have began := World.before_happen (.dispatched signal) s.world
      have longer : s.world.journal.length < (s.world.happen (.dispatched signal)).journal.length := by
        simp [World.happen]
      rcases List.mem_cons.mp passed with same | within
      · cases same
        exact ⟨nested, ended, t, worked, fun m listed => moments ▸ listed, .refl _,
          Nat.lt_of_lt_of_le longer inside.before.length_le, .refl _, rfl⟩
      · obtain ⟨nested, ended, u, worked, within, since, rest⟩ :=
          ih (by rintro _ ⟨⟩; exact longer) within
        exact ⟨nested, ended, u, worked, fun m listed => List.mem_cons_of_mem _ (within m listed),
          began.trans since, rest⟩

end Course

end LiveBinding
