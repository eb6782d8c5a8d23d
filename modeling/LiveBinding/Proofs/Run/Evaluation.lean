/-
# LiveBinding.Proofs.Run.Evaluation -- where getters are evaluated

Reading attributes, routing and storing writes, applying operators, attaching and binding
views: none of it evaluates a getter, and none of it calls a listener (`World.Idle`).  That
leaves two openings.  A refresh evaluates the getter of its property, if that is bound, before
it does anything else (`idle_reaction`), and binding properties evaluates those that it binds,
all of them of one model (`idle_bindComputed`).
-/
import LiveBinding.Proofs.Delivery
import LiveBinding.Proofs.Run.Bears

namespace LiveBinding

set_option autoImplicit false

variable {σ α : Type}

/-! ## Doing neither -/

/-- No call of a listener, and no evaluation but for such models. -/
def Entry.IsAside (among : Ref .model → Prop) (entry : Entry) : Prop :=
  entry.happening.call? = none ∧
    ∀ model name, entry.happening = .evaluated model name → among model

namespace World

/-- Between the worlds nobody is called, and no getter is evaluated but for such models. -/
def Idle (among : Ref .model → Prop) (v w : World σ) : Prop :=
  v.Before w ∧ v.Notes (Entry.IsAside among) w

/-- Between the worlds nobody is called and no getter is evaluated. -/
abbrev Silent : World σ → World σ → Prop := Idle fun _ => False

variable {among : Ref .model → Prop} {v w : World σ}

instance : IsPreorder (World σ) (Idle among) where
  refl w := ⟨.refl w, notes_of_eq rfl⟩
  trans _ _ _ first then_ :=
    ⟨first.1.trans then_.1, first.2.trans first.1 then_.1 then_.2⟩

theorem Idle.mono {others : Ref .model → Prop} (idle : v.Idle among w)
    (more : ∀ model, among model → others model) : v.Idle others w :=
  ⟨idle.1, idle.2.mono fun _ aside =>
    ⟨aside.1, fun model name evaluated => more model (aside.2 model name evaluated)⟩⟩

theorem idle_of_eq (same : w.journal = v.journal) : v.Idle among w :=
  ⟨before_of_eq same, notes_of_eq same⟩

theorem idle_happen {happening : Happening} (uncalled : happening.call? = none)
    (aside : ∀ model name, happening = .evaluated model name → among model) (w : World σ) :
    w.Idle among (w.happen happening) :=
  ⟨before_happen _ w, notes_happen.mpr ⟨uncalled, aside⟩⟩

theorem idle_report (message : Message) (w : World σ) : w.Idle among (w.report message) :=
  idle_happen rfl (fun _ _ => Happening.noConfusion) w

theorem idle_failed (error : Error) (w : World σ) : w.Idle among (w.happen (.failed error)) :=
  idle_happen rfl (fun _ _ => Happening.noConfusion) w

/-- What is quiet and calls nobody evaluates nothing. -/
theorem idle_of_quiet {spans : List Span} (before : v.Before w)
    (quiet : v.Notes (Entry.IsQuiet spans) w)
    (uncalled : v.Notes (fun entry => entry.happening.call? = none) w) : v.Idle among w := by
  refine ⟨before, fun entry added => ⟨uncalled entry added, fun model name evaluated => ?_⟩⟩
  have none := (quiet entry added).1
  rw [evaluated] at none
  cases none

theorem idle_unbindComputed (model : Ref .model) (w : World σ) :
    w.Idle among (w.unbindComputed model) := by
  unfold unbindComputed
  split
  · exact refl w
  · split
    · exact refl w
    · rename_i m _ _
      exact trans (idle_report (.computedUnbound m.properties.length) w)
        (idle_of_eq (journal_cancelAll _ _))

end World

namespace Run

variable {among : Ref .model → Prop} {s t : State σ}

/-- The work calls nobody, and evaluates no getter but for such models. -/
abbrev Idles (among : Ref .model → Prop) {α : Type} : Run σ α → State σ → Prop :=
  Leads (World.Idle among)

/-- Nothing that openings do calls anybody or evaluates anything, but for evaluations. -/
theorem bears_idle : Bears (State.Through (World.Idle (σ := σ) among)) where
  failed error s := World.idle_failed error s.world
  reported message s := World.idle_report message s.world
  held _ _ := World.idle_of_eq rfl
  triggered _ _ := World.idle_of_eq rfl
  closed closing s := World.idle_of_eq (journal_closing closing s.world)
  moved _ s := refl s.world
  stored _ _ := World.idle_of_eq rfl
  adopted _ _ _ := World.idle_of_eq rfl

/-- Work that leaves computed properties alone is idle. -/
theorem idles_of_apart {work : Run σ α} (concludes : Concludes work)
    (apart : Follows State.Apart work s) (treads : Treads False True work s) :
    Idles among work s := by
  obtain ⟨before, ⟨left, -⟩, -⟩ :=
    apart _ _ rfl fun exhausted => concludes s _ (Prod.ext exhausted rfl)
  exact World.idle_of_quiet before left.noted (World.Steps.journal treads).2

/-- What comes before the dispatches of a call evaluates nothing, unless it binds properties. -/
theorem idles_opening {call : Call σ} {opening : Run σ Errand}
    (opens : call.opening = some opening)
    (other : ∀ model definitions, call ≠ .bindComputed model definitions) :
    Idles among opening s :=
  bears_idle.opening opens (fun model definitions same => absurd same (other model definitions))
    (fun _ _ _ => World.idle_of_eq rfl) fun _ _ _ _ => Leads.alter_bind (World.idle_of_eq rfl)
      (bears_idle.keeping (World.idle_of_eq rfl) (leads_pure _))

/-- Nor does a call that dispatches nothing. -/
theorem idle_perform {fire : Fire σ} {call : Call σ} {answer : call.Answer}
    (quiet : call.opening = none) (performed : (perform fire call).result s = (.ok answer, t)) :
    s.world.Idle among t.world := by
  obtain ⟨model, -, rfl⟩ | ⟨before, apart, -⟩ := perform_quiet_cases quiet performed
  · exact World.idle_unbindComputed model s.world
  by_cases cancels : ∃ subscription, call = .cancel subscription
  · obtain ⟨subscription, rfl⟩ := cancels
    cases performed
    exact World.idle_of_eq rfl
  have treads : Treads False True (perform fire call) s :=
    steps_perform fire quiet (fun subscription same => cancels ⟨subscription, same⟩) False.elim
  rw [Treads, Leads, performed] at treads
  exact World.idle_of_quiet before apart.noted (World.Steps.journal treads).2

/-! ## Computed properties -/

/-- Binding properties evaluates those of one model. -/
theorem bears_idle_binding {model : Ref .model} (mine : among model) :
    BearsBinding (State.Through (World.Idle (σ := σ) among)) model where
  toBears := bears_idle
  evaluated _ s := World.idle_happen rfl (by rintro _ _ ⟨⟩; exact mine) s.world
  subscribed d name s :=
    World.idle_of_eq (World.journal_subscribe d.hub d.event (.refresh model name) s.world)
  changed _ _ := World.idle_of_eq rfl
  unbound s := World.idle_unbindComputed model s.world

theorem idle_bindComputed {model : Ref .model} {definitions : List (String × Definition σ)}
    {ended : Except Halt Errand}
    (worked : (Opening.bindComputed model definitions).result s = (ended, t)) :
    s.world.Idle (Eq model) t.world := by
  have idles : Idles (Eq model) _ s := (bears_idle_binding (Eq.refl model)).bindComputed definitions
  rwa [Idles, Leads, worked] at idles

end Run

/-! ## Refreshing -/

/-- The property that the listener evaluates, if that is bound. -/
def Reaction.evaluates (w : World σ) : Reaction → Option (Ref .model × String)
  | .refresh model name =>
      if ((w.models.get? model).bind (·.property? name)).isSome then some (model, name) else none
  | _ => none

/-- The world in which the listener has evaluated what it evaluates. -/
def World.answering (reaction : Reaction) (w : World σ) : World σ :=
  match reaction.evaluates w with
  | some (model, name) => w.happen (.evaluated model name)
  | none => w

namespace World

variable {reaction : Reaction} {w : World σ}

theorem answering_of_some {model : Ref .model} {name : String}
    (evaluates : reaction.evaluates w = some (model, name)) :
    w.answering reaction = w.happen (.evaluated model name) := by
  rw [answering, evaluates]

theorem answering_of_none (nothing : reaction.evaluates w = none) : w.answering reaction = w := by
  rw [answering, nothing]

theorem idle_answering (reaction : Reaction) (w : World σ) :
    w.Idle (fun _ => True) (w.answering reaction) := by
  rcases evaluates : reaction.evaluates w with _ | ⟨model, name⟩
  · rw [answering_of_none evaluates]
    exact refl w
  · rw [answering_of_some evaluates]
    exact idle_happen rfl (fun _ _ _ => trivial) w

end World

namespace Run

variable {s t : State σ}

/-- What follows an evaluation follows it also where that fails. -/
theorem idle_of_evaluated {model : Ref .model} {name : String} {getter : Getter σ}
    {capturing : Bool} {next : Json × Collector → Run σ α} {ended : Except Halt α}
    (rest : ∀ given v, (evaluate model name getter capturing).result s = (.ok given, v) →
      Idles (fun _ => False) (next given) v)
    (worked : (evaluate model name getter capturing >>= next).result s = (ended, t)) :
    (s.world.happen (.evaluated model name)).Silent t.world := by
  obtain ⟨client, ⟨given, gave⟩ | ⟨error, failed⟩⟩ := evaluate_ends model name getter capturing s
  · have idles := rest given _ gave
    rw [Idles, Leads, ← result_bind_ok gave, worked] at idles
    exact idles
  · rw [result_bind_error failed] at worked
    cases worked
    exact World.idle_failed error _

/-- A property that is bound is evaluated first, and then not again. -/
theorem idle_refresh {model : Ref .model} {name : String} {ended : Except Halt Errand}
    (worked : (Opening.refresh model name).result s = (ended, t)) :
    (s.world.answering (.refresh model name)).Silent t.world := by
  rw [Opening.refresh, result_world_bind] at worked
  rcases present : s.world.models.get? model with _ | m
  · simp only [present] at worked
    cases worked
    simp only [World.answering, Reaction.evaluates, present, Option.bind_none, Option.isSome_none,
      Bool.false_eq_true, if_false]
    exact refl _
  rcases found : m.property? name with _ | p
  · simp only [present, found] at worked
    cases worked
    simp only [World.answering, Reaction.evaluates, present, found, Option.bind_some,
      Option.isSome_none, Bool.false_eq_true, if_false]
    exact refl _
  simp only [World.answering, Reaction.evaluates, present, found, Option.bind_some,
    Option.isSome_some, if_true]
  simp only [present, found] at worked
  rw [Opening.result_keeping] at worked
  obtain rfl := Model.name_of_property? found
  have there : (s.alter (.hold (.model model))).world.models.get? model = some m := present
  -- to hold on to the model is no entry of the journal
  show ((s.alter (.hold (.model model))).world.happen (.evaluated model p.name)).Silent t.world
  split at worked
  · rename_i ran
    cases worked
    exact idle_of_evaluated (fun _ _ gave => bears_idle.renew there found gave) ran
  · rename_i u ran
    cases worked
    exact IsTrans.trans _ u.world _
      (idle_of_evaluated (fun _ _ gave => bears_idle.renew there found gave) ran)
      (World.idle_of_eq (World.journal_release _ _))

/-- What a listener does that is not a client's begins with what it evaluates, and up to its
dispatches it calls nobody and evaluates nothing more. -/
theorem idle_reaction {reaction : Reaction} {event : Event} {opening : Run σ Errand}
    {ended : Except Halt Errand} (opens : reaction.opening event = some opening)
    (worked : opening.result s = (ended, t)) : (s.world.answering reaction).Silent t.world := by
  cases reaction with
  | client callback => cases opens
  | refresh model property =>
      cases opens
      exact idle_refresh worked
  | reapply binding slot =>
      cases opens
      have idles : Idles (fun _ => False) _ s :=
        (idles_of_apart (concludes_reapply binding slot event.name) (apart_reapply _ _ _)
          (treads_reapply _ _ _)).bind fun _ _ _ => leads_pure Errand.nothing
      rw [Idles, Leads, worked] at idles
      exact idles
  | push binding slot =>
      cases opens
      have idles : Idles (fun _ => False) _ s := bears_idle.push binding slot
      rw [Idles, Leads, worked] at idles
      exact idles

end Run

end LiveBinding
