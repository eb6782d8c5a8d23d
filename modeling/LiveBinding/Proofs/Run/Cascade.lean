/-
# LiveBinding.Proofs.Run.Cascade -- updates that set off updates

While clients only look on, a change of a name is passed on from computed property to
computed property, of its own model and of others, and the only ones to be called are those
that listen to what has just changed.  So each moment of a cascade is a chain of updates, one
inside the other, each of which feeds the next (`Entry.IsLinked`).  If what feeds ranks above
what is fed, chains are no longer than ranks are high, and dispatches that may nest a little
deeper never run out (`conveys_of_rank`).

That values may be lists and objects, which always go on, does not matter.
-/
import LiveBinding.Proofs.Run.Concludes
import LiveBinding.Proofs.Run.Settle
import LiveBinding.Proofs.World.Feeds
import Mathlib.Data.List.Chain

namespace LiveBinding

set_option autoImplicit false

variable {σ α β : Type}

/-! ## Chains -/

/-- What is updated at a moment, since `outer` was open, is a chain. -/
def Entry.IsLinked (feeds : Accessor → Accessor → Prop) (outer : List Span) (entry : Entry) : Prop :=
  ∃ (inner : List Span) (chain : List Accessor), entry.spans = outer ++ inner ∧
    chain.map (·.name) = Span.updates inner ∧
      (chain ++ entry.happening.evaluating).IsChain feeds

/-- Where nothing is evaluated, what is updated is all there is. -/
theorem Entry.isLinked_of_plain {feeds : Accessor → Accessor → Prop} {outer inner spans : List Span}
    {chain : List Accessor} {happening : Happening} (plain : happening.evaluating = [])
    (within : spans = outer ++ inner) (updates : chain.map (·.name) = Span.updates inner)
    (linked : chain.IsChain feeds) : Entry.IsLinked feeds outer ⟨happening, spans⟩ := by
  refine ⟨inner, chain, within, updates, ?_⟩
  rw [plain, List.append_nil]
  exact linked

theorem Entry.IsQuiet.isLinked {feeds : Accessor → Accessor → Prop} {outer inner : List Span}
    {chain : List Accessor} {entry : Entry} (quiet : entry.IsQuiet (outer ++ inner))
    (updates : chain.map (·.name) = Span.updates inner) (linked : chain.IsChain feeds) :
    entry.IsLinked feeds outer := by
  obtain ⟨plain, more, spans, none⟩ := quiet
  have within : entry.spans = outer ++ (inner ++ more) := by
    rw [spans, List.append_assoc]
  refine isLinked_of_plain plain within ?_ linked
  rw [Span.updates_append, none, List.append_nil, updates]

theorem Entry.IsQuiet.isLinked_nil {feeds : Accessor → Accessor → Prop} {outer : List Span}
    {entry : Entry} (quiet : entry.IsQuiet outer) : entry.IsLinked feeds outer := by
  have none : ([] : List Accessor).map (·.name) = Span.updates [] := rfl
  rw [← List.append_nil outer] at quiet
  exact quiet.isLinked none .nil

/-! ## Confinement -/

namespace World

/-- Nobody but clients and slots hears in `w` of anything that was not heard in `v`, and what
models of `v` are left have their hubs and no properties beyond those that they had. -/
structure Confines (v w : World σ) : Prop where
  issued : v.models.rows.length ≤ w.models.rows.length
  row : ∀ model m, w.models.get? model = some m → v.models.rows.length ≤ model.index ∨
    ∃ old, v.models.get? model = some old ∧ old.hub = m.hub
  computed : ∀ a ∈ w.computed, a ∈ v.computed
  heard : Heard v.hubs w.hubs

variable {u v w : World σ} {model : Ref .model} {m m' : Model σ}

theorem Confines.refl (w : World σ) : w.Confines w where
  issued := Nat.le_refl _
  row _ m present := Or.inr ⟨m, present, rfl⟩
  computed _ := id
  heard := .refl _

theorem Confines.of_tables (confines : u.Confines v) (hubs : w.hubs = v.hubs)
    (models : w.models = v.models) : u.Confines w where
  issued := by rw [models]; exact confines.issued
  row := by rw [models]; exact confines.row
  computed := by rw [World.computed, models]; exact confines.computed
  heard := by rw [hubs]; exact confines.heard

theorem Confines.of_apart (apart : v.Apart w) (confines : u.Confines v) : u.Confines w where
  issued := Nat.le_trans confines.issued apart.issued
  row model m present := by
    rcases Nat.lt_or_ge model.index v.models.rows.length with below | beyond
    · exact confines.row model m (apart.row below present)
    · exact Or.inl (Nat.le_trans confines.issued beyond)
  computed a listed := by
    obtain ⟨m, present, p, among, named⟩ := mem_computed.mp listed
    rcases Nat.lt_or_ge a.model.index v.models.rows.length with below | beyond
    · exact confines.computed a (mem_computed.mpr ⟨m, apart.row below present, p, among, named⟩)
    · -- a new model has no properties
      rw [apart.new a.model m beyond present] at among
      cases among
  heard := confines.heard.trans apart.heard

theorem Confines.put (confines : v.Confines w) (present : w.models.get? model = some m)
    (same : m.SameShape m') : v.Confines (w.put model m') where
  issued := by simpa [World.put, Table.update] using confines.issued
  row other found there := by
    rcases get?_put present there with ⟨rfl, rfl⟩ | ⟨-, was⟩
    · rw [same.1]
      exact confines.row other m present
    · exact confines.row other found was
  computed a listed := by
    obtain ⟨found, there, p, among, named⟩ := mem_computed.mp listed
    refine confines.computed a (mem_computed.mpr ?_)
    rcases get?_put present there with ⟨here, rfl⟩ | ⟨-, was⟩
    · obtain ⟨q, among', shape⟩ := same.symm.mem among
      rw [here]
      exact ⟨m, present, q, among', (Property.name_of_shape shape).trans named⟩
    · exact ⟨found, was, p, among, named⟩
  heard := confines.heard

theorem Confines.unbindComputed (other : Ref .model) (confines : v.Confines w) :
    v.Confines (w.unbindComputed other) where
  issued := by
    have same : (w.unbindComputed other).models.rows.length = w.models.rows.length := by
      unfold World.unbindComputed
      split
      · rfl
      · split
        · rfl
        · rw [models_cancelAll]
          simp [Table.update, World.report, World.happen]
    rw [same]
    exact confines.issued
  row model m present := by
    obtain ⟨old, was, same, -⟩ := row_unbindComputed present
    rw [← same]
    exact confines.row model old was
  computed a listed := by
    obtain ⟨m, present, p, among, named⟩ := mem_computed.mp listed
    obtain ⟨old, was, -, rfl | ⟨-, none⟩⟩ := row_unbindComputed present
    · exact confines.computed a (mem_computed.mpr ⟨m, was, p, among, named⟩)
    · rw [none] at among
      cases among
  heard s reaction registered := confines.heard s reaction (registered_of_unbindComputed registered).1

/-- A model that was there is announced on the hub that it had. -/
theorem Confines.hub_eq (confines : v.Confines w) (was : v.models.get? model = some m)
    (present : w.models.get? model = some m') : m'.hub = m.hub := by
  rcases confines.row model m' present with beyond | ⟨old, there, same⟩
  · exact absurd was (get?_of_beyond beyond)
  · rw [was] at there
    cases there
    exact same.symm

end World

/-- Callbacks dispatch nothing, and neither do those that they subscribe. -/
def State.IsQuiet (s : State σ) : Prop :=
  ∀ callback ∈ s.callbacks, ∀ event, (callback event).Only Call.IsQuiet

/-- Nobody hears of more than in `v`, and clients look on. -/
structure State.Calm (v : World σ) (s : State σ) : Prop where
  confined : v.Confines s.world
  quiet : s.IsQuiet

namespace Run

/-- The work ends well or fails, all stays calm, and what is noted on the way is such. -/
def Cascades (v : World σ) (kind : Entry → Prop) (work : Run σ α) (s : State σ) : Prop :=
  ∃ ended t, work.result s = (ended, t) ∧ ended ≠ .error .exhausted ∧
    t.Calm v ∧ t.world.spans = s.world.spans ∧ s.world.Before t.world ∧
    s.world.Notes kind t.world

variable {v : World σ} {kind : Entry → Prop} {s : State σ} {fire : Fire σ}

/-! ## Putting work together -/

theorem cascades_pure (a : α) (calm : s.Calm v) :
    Cascades v kind (pure a) s :=
  ⟨.ok a, s, rfl, nofun, calm, rfl, .refl _, World.notes_of_eq rfl⟩

theorem Cascades.mono {work : Run σ α} {kind' : Entry → Prop}
    (cascades : Cascades v kind work s) (weaker : ∀ entry, kind entry → kind' entry) :
    Cascades v kind' work s := by
  obtain ⟨ended, t, worked, deep, calm, spans, before, notes⟩ := cascades
  exact ⟨ended, t, worked, deep, calm, spans, before, notes.mono weaker⟩

theorem Cascades.congr {work work' : Run σ α} (same : work'.result s = work.result s)
    (cascades : Cascades v kind work s) : Cascades v kind work' s := by
  rw [Cascades, same]
  exact cascades

theorem Cascades.bind {work : Run σ α} {next : α → Run σ β}
    (first : Cascades v kind work s)
    (rest : ∀ a t, work.result s = (.ok a, t) → t.Calm v →
      t.world.spans = s.world.spans → Cascades v kind (next a) t) :
    Cascades v kind (work >>= next) s := by
  obtain ⟨halt | a, t, worked, deep, calm, spans, before, notes⟩ := first
  · have deep' : (Except.error halt : Except Halt β) ≠ .error .exhausted := by
      rintro ⟨⟩
      exact deep rfl
    exact ⟨.error halt, t, result_bind_error worked, deep', calm, spans, before, notes⟩
  · obtain ⟨ended, u, workedThen, deepThen, calmThen, spansThen, beforeThen, notesThen⟩ :=
      rest a t worked calm spans
    exact ⟨ended, u, (result_bind_ok worked).trans workedThen, deepThen, calmThen,
      spansThen.trans spans, before.trans beforeThen, notes.trans before beforeThen notesThen⟩

/-- A step of the world, and then work. -/
theorem Cascades.after {work work' : Run σ α} {f : World σ → World σ}
    (same : work'.result s = work.result (s.alter f)) (spans : (f s.world).spans = s.world.spans)
    (before : s.world.Before (f s.world)) (notes : s.world.Notes kind (f s.world))
    (cascades : Cascades v kind work (s.alter f)) :
    Cascades v kind work' s := by
  obtain ⟨ended, t, worked, deep, calm, spansThen, beforeThen, notesThen⟩ := cascades
  exact ⟨ended, t, same.trans worked, deep, calm, spansThen.trans spans, before.trans beforeThen,
    notes.trans before beforeThen notesThen⟩

/-- Something is noted first. -/
theorem Cascades.after_happen {work work' : Run σ α} {happening : Happening}
    (same : work'.result s = work.result (s.alter (.happen happening)))
    (noted : kind ⟨happening, s.world.spans⟩)
    (cascades : Cascades v kind work (s.alter (.happen happening))) :
    Cascades v kind work' s :=
  cascades.after same rfl (World.before_happen _ _) (World.notes_happen.mpr noted)

theorem Cascades.lastly {work : Run σ α} {last : World σ → World σ}
    (cascades : Cascades v kind work s) (journal : ∀ w : World σ, (last w).journal = w.journal)
    (confined : ∀ w : World σ, v.Confines w → v.Confines (last w))
    (spans : ∀ w : World σ, w.spans = s.world.spans → (last w).spans = s.world.spans) :
    Cascades v kind (work.lastly last) s := by
  obtain ⟨ended, t, worked, deep, calm, kept, before, notes⟩ := cascades
  refine ⟨ended, t.alter last, by rw [result_lastly, worked], deep,
    ⟨confined _ calm.confined, calm.quiet⟩,
    spans _ kept, before.trans (World.before_of_eq (journal _)), ?_⟩
  exact notes.trans before (World.before_of_eq (journal _)) (World.notes_of_eq (journal _))

theorem calm_hold (handle : Handle) (calm : s.Calm v) :
    (s.alter (.hold handle)).Calm v :=
  ⟨.of_apart (World.apart_hold handle s.world) calm.confined, calm.quiet⟩

theorem calm_happen (happening : Happening) (calm : s.Calm v) :
    (s.alter (.happen happening)).Calm v :=
  ⟨calm.confined.of_tables rfl rfl, calm.quiet⟩

theorem Cascades.keeping {handle : Handle} {work : Run σ α}
    (cascades : Cascades v kind work (s.alter (.hold handle))) :
    Cascades v kind (keeping handle work) s := by
  have released : Cascades v kind (work.lastly (.release handle))
      (s.alter (.hold handle)) :=
    cascades.lastly (World.journal_release handle)
      (fun w confined => .of_apart (World.apart_release handle w) confined)
      fun w same => (World.apart_release handle w).spans.trans same
  exact released.after (result_keeping handle work s) rfl (World.before_of_eq rfl)
    (World.notes_of_eq rfl)

/-! ## What is quiet -/

/-- Work that leaves computed properties alone. -/
theorem cascades_of_apart {work : Run σ α} (calm : s.Calm v)
    (concludes : Concludes work) (apart : Follows State.Apart work s) :
    Cascades v (Entry.IsQuiet s.world.spans) work s := by
  rcases worked : work.result s with ⟨ended, t⟩
  have deep : ended ≠ .error .exhausted := by
    rintro rfl
    exact concludes s t worked
  obtain ⟨before, ⟨apart, callbacks⟩, -⟩ := apart ended t worked deep
  refine ⟨ended, t, worked, deep, ⟨.of_apart apart calm.confined, ?_⟩, apart.spans, before,
    apart.noted⟩
  rw [State.IsQuiet, callbacks]
  exact calm.quiet

theorem cascades_alter {f : World σ → World σ} (calm : s.Calm v)
    (confined : v.Confines (f s.world)) (spans : (f s.world).spans = s.world.spans)
    (before : s.world.Before (f s.world)) (notes : s.world.Notes kind (f s.world)) :
    Cascades v kind (alter f) s :=
  ⟨.ok (), s.alter f, rfl, nofun, ⟨confined, calm.quiet⟩, spans, before, notes⟩

theorem cascades_unbindComputed (other : Ref .model) (calm : s.Calm v) :
    Cascades v (Entry.IsQuiet s.world.spans) (alter (.unbindComputed other)) s := by
  refine cascades_alter calm (calm.confined.unbindComputed other) ?_
    (World.before_unbindComputed _ _) ?_
  · unfold World.unbindComputed
    split
    · rfl
    · split
      · rfl
      · exact World.spans_cancelAll _ _
  · unfold World.unbindComputed
    split
    · exact World.notes_of_eq rfl
    · split
      · exact World.notes_of_eq rfl
      · intro entry added
        rw [World.journal_cancelAll] at added
        exact World.notes_happen (w := { s.world with
          models := s.world.models.update other fun m => { m with properties := [] } }).mpr
          ⟨rfl, [], (List.append_nil _).symm, rfl⟩ entry added

theorem cascades_perform {call : Call σ} (quiet : call.IsQuiet) (calm : s.Calm v) :
    Cascades v (Entry.IsQuiet s.world.spans) (perform fire call) s := by
  by_cases plain : call.computes = false
  · have silent : call.dispatches = false := by
      cases call with
      | trigger hub event => exact quiet.elim
      | write model attributes => exact quiet.elim
      | assign accessor value => exact quiet.elim
      | announceEdit document element => exact quiet.elim
      | typeInto document element text => exact quiet.elim
      | _ => rfl
    exact cascades_of_apart calm (concludes_perform quiet) (apart_perform silent plain)
  · cases call with
    | bindComputed model definitions => exact quiet.elim
    | unbindComputed other => exact cascades_unbindComputed other calm
    | _ => exact absurd rfl plain

theorem cascades_enroll {callback : Event → Program σ}
    (quiet : ∀ event, (callback event).Only Call.IsQuiet) (calm : s.Calm v) :
    Cascades v kind (enroll callback) s := by
  refine ⟨_, _, rfl, nofun, ⟨calm.confined, fun other listed => ?_⟩, rfl, .refl _,
    World.notes_of_eq rfl⟩
  rcases List.mem_append.mp listed with old | new
  · exact calm.quiet other old
  · rw [List.mem_singleton.mp new]
    exact quiet

/-- What a client does that dispatches nothing. -/
theorem cascades_exec {program : Program σ} (quiet : program.Only Call.IsQuiet)
    (calm : s.Calm v) :
    Cascades v (Entry.IsQuiet s.world.spans) (exec fire program) s := by
  induction quiet generalizing s with
  | done => exact cascades_pure () calm
  | fail error =>
      exact cascades_of_apart calm (concludes_fail error) (apart_fail error)
  | call permitted rest ih =>
      refine (cascades_perform permitted calm).bind fun answer t _ calm spans => ?_
      rw [← spans]
      exact ih answer calm
  | @subscribe on event callback next called rest calledIh ih =>
      refine (cascades_enroll called calm).bind fun number t _ calm spans => ?_
      rw [← spans]
      have subscribed : Follows State.Apart (produce (World.subscribe on event (.client number))) t :=
        apart_produce (World.before_of_eq (World.journal_subscribe _ _ _ _))
          (World.apart_subscribe on event number _)
      refine (cascades_of_apart calm (concludes_produce _) subscribed).bind
        fun answer u _ calm spans => ?_
      rw [← spans]
      exact ih answer calm
  | @listen document element callback next called rest calledIh ih =>
      refine (cascades_enroll (fun _ => called) calm).bind fun number t _ calm spans => ?_
      rw [← spans]
      have listened : Follows State.Apart
          (produce (World.listen document element (.client number))) t :=
        apart_produce (World.before_of_eq (World.journal_listen _ _ _ _))
          (World.apart_listen document element (.client number) _)
      refine (cascades_of_apart calm (concludes_produce _) listened).bind
        fun answer u _ calm spans => ?_
      rw [← spans]
      exact ih answer calm
  | look rest ih =>
      obtain ⟨ended, t, worked, facts⟩ := ih s.world s.client calm
      exact ⟨ended, t, (result_bind_ok (result_get s)).trans worked, facts⟩
  | @change g next rest ih =>
      obtain ⟨ended, t, worked, facts⟩ := ih (s := { s with client := g s.client })
        ⟨calm.confined, calm.quiet⟩
      exact ⟨ended, t, (result_bind_ok (result_modify _ s)).trans worked, facts⟩

/-! ## Announcing -/

/-- The events that are dispatched when the name changes set off cascades, while these
properties are being updated. -/
def Conveys (v : World σ) (origin : Ref .model) (outer : List Span) (fire : Fire σ) (a : Accessor)
    (chain : List Accessor) : Prop :=
  ∀ hub event value (s : State σ) inner, v.Announces a hub event → s.Calm v →
    s.world.spans = outer ++ inner → chain.map (·.name) = Span.updates inner →
    Cascades v (Entry.IsLinked (v.Passes origin) outer) (fire (.event hub ⟨event, value⟩)) s

variable {outer inner : List Span} {chain : List Accessor} {origin model : Ref .model}
  {old m : Model σ}

theorem announce_cascades {hub : Ref .hub} (changes : List (String × Json)) (calm : s.Calm v)
    (spans : s.world.spans = outer ++ inner) (updates : chain.map (·.name) = Span.updates inner)
    (there : ∃ old, v.models.get? model = some old ∧ old.hub = hub)
    (conveys : ∀ change ∈ changes, Conveys v origin outer fire ⟨change.1, model⟩ chain) :
    Cascades v (Entry.IsLinked (v.Passes origin) outer) (announce fire hub changes) s := by
  have eachOf : ∀ (changes : List (String × Json)) (s : State σ), s.Calm v →
      s.world.spans = outer ++ inner →
      (∀ change ∈ changes, Conveys v origin outer fire ⟨change.1, model⟩ chain) →
      Cascades v (Entry.IsLinked (v.Passes origin) outer)
        (changes.forM fun change => fire (.event hub ⟨changeOf change.1, change.2⟩)) s := by
    intro changes
    induction changes with
    | nil => exact fun s calm _ _ => cascades_pure _ calm
    | cons change rest ih =>
        intro s calm spans conveys
        have told := conveys change List.mem_cons_self hub (changeOf change.1) change.2 s inner
          ⟨there, Or.inl rfl⟩ calm spans updates
        exact told.bind fun _ t _ calm same =>
          ih t calm (same.trans spans) fun other later => conveys other (List.mem_cons_of_mem _ later)
  refine (eachOf changes s calm spans conveys).bind fun _ t _ calm same => ?_
  cases changes with
  | nil => exact cascades_pure _ calm
  | cons change rest =>
      exact conveys change List.mem_cons_self hub changeEvent .null t inner
        ⟨there, Or.inr rfl⟩ calm (same.trans spans) updates

/-! ## Refreshing -/

theorem cascades_evaluate {a : Accessor} (getter : Getter σ) (capturing : Bool)
    (calm : s.Calm v) (spans : s.world.spans = outer ++ inner)
    (updates : chain.map (·.name) = Span.updates inner) (linked : chain.IsChain (v.Passes origin))
    (longer : (chain ++ [a]).IsChain (v.Passes origin)) :
    Cascades v (Entry.IsLinked (v.Passes origin) outer)
      (evaluate a.model a.name getter capturing) s := by
  have before := World.before_happen (.evaluated a.model a.name) s.world
  have evaluated : s.world.Notes (Entry.IsLinked (v.Passes origin) outer)
      (s.world.happen (.evaluated a.model a.name)) :=
    World.notes_happen.mpr ⟨inner, chain, spans, updates, longer⟩
  obtain ⟨client, ⟨given, worked⟩ | ⟨error, worked⟩⟩ := evaluate_ends a.model a.name getter capturing s
  · exact ⟨_, _, worked, nofun, ⟨(calm_happen _ calm).confined, calm.quiet⟩, rfl, before, evaluated⟩
  · have failed := World.before_happen (.failed error) (s.world.happen (.evaluated a.model a.name))
    refine ⟨_, _, worked, nofun, ⟨(calm_happen _ (calm_happen _ calm)).confined, calm.quiet⟩, rfl,
      before.trans failed, evaluated.trans before failed
        (World.notes_happen.mpr (Entry.isLinked_of_plain rfl spans updates linked))⟩

theorem publish_cascades {p : Property σ} {value : Json} (calm : s.Calm v)
    (spans : s.world.spans = outer ++ inner) (updates : chain.map (·.name) = Span.updates inner)
    (linked : chain.IsChain (v.Passes origin)) (there : v.models.get? model = some old)
    (present : s.world.models.get? model = some m)
    (conveys : Conveys v origin outer fire ⟨p.name, model⟩ (chain ++ [⟨p.name, model⟩])) :
    Cascades v (Entry.IsLinked (v.Passes origin) outer) (do
      alter fun w => { w with models := w.models.update model (.setValue p.name value) }
      publish fire model m.hub p value) s := by
  have adopted : (s.alter (publishing model (m.adopt p value).1
      (.computedUpdated p.name p.isVirtual))).Calm v :=
    ⟨(calm.confined.put present (Model.sameShape_adopt p value m)).of_tables rfl rfl, calm.quiet⟩
  have open_ : (s.alter (publishing model (m.adopt p value).1
      (.computedUpdated p.name p.isVirtual))).world.spans =
      outer ++ (inner ++ [(Message.computedUpdated p.name p.isVirtual).span "computed_update"]) := by
    rw [← List.append_assoc, ← spans]
    rfl
  have updating : (chain ++ [(⟨p.name, model⟩ : Accessor)]).map (·.name) = Span.updates
      (inner ++ [(Message.computedUpdated p.name p.isVirtual).span "computed_update"]) := by
    rw [Span.updates_append, ← updates, List.map_append]
    rfl
  obtain ⟨ended, t, worked, deep, calmThen, -, before, notes⟩ :=
    announce_cascades (m.adopt p value).2 adopted open_ updating
      ⟨old, there, (calm.confined.hub_eq there present).symm⟩ fun change announced => by
      rw [Model.adopted_mem announced]
      exact conveys
  have noted : s.world.Before (s.alter (publishing model (m.adopt p value).1
      (.computedUpdated p.name p.isVirtual))).world := World.before_happen _ _
  refine ⟨ended, t.alter fun w => { w with spans := s.world.spans }, ?_, deep,
    ⟨calmThen.confined.of_tables rfl rfl, calmThen.quiet⟩, rfl, noted.trans before, ?_⟩
  · rw [result_publish present, result_lastly, worked]
  · refine World.Notes.trans noted before
      (World.notes_happen.mpr (Entry.isLinked_of_plain rfl spans updates linked)) notes

/-- A refresh updates a property, if it is still there, and then its change is told. -/
theorem refresh_cascades {a : Accessor} (calm : s.Calm v) (spans : s.world.spans = outer ++ inner)
    (updates : chain.map (·.name) = Span.updates inner) (linked : chain.IsChain (v.Passes origin))
    (fed : a ∈ v.computed → (chain ++ [a]).IsChain (v.Passes origin) ∧
      Conveys v origin outer fire a (chain ++ [a])) :
    Cascades v (Entry.IsLinked (v.Passes origin) outer) (refresh fire a.model a.name) s := by
  obtain ⟨name, model⟩ := a
  dsimp only
  rcases present : s.world.models.get? model with _ | m
  · have nothing : (refresh fire model name).result s = (pure () : Run σ Unit).result s := by
      rw [refresh, result_world_bind, present]
    exact (cascades_pure () calm).congr nothing
  rcases found : m.property? name with _ | p
  · have nothing : (refresh fire model name).result s = (pure () : Run σ Unit).result s := by
      rw [refresh, result_world_bind, present]
      dsimp only
      rw [found]
    exact (cascades_pure () calm).congr nothing
  obtain rfl := Model.name_of_property? found
  have listed : ⟨p.name, model⟩ ∈ v.computed := calm.confined.computed _
    (World.mem_computed.mpr ⟨m, present, p, Model.mem_of_property? found, rfl⟩)
  obtain ⟨old, there, -⟩ := World.mem_computed.mp listed
  obtain ⟨longer, conveys⟩ := fed listed
  have works : (refresh fire model p.name).result s = (keeping (.model model) do
      let result ← evaluate model p.name p.getter false
      if isSettled p.value result.1 then pure ()
      else
        alter fun w => { w with models := w.models.update model (.setValue p.name result.1) }
        publish fire model m.hub p result.1).result s := by
    rw [refresh, result_world_bind, present]
    dsimp only
    rw [found]
  refine Cascades.congr works (Cascades.keeping ?_)
  refine (cascades_evaluate p.getter false (calm_hold _ calm) spans updates linked longer).bind
    fun given t evaluated calm same => ?_
  split
  · exact cascades_pure () calm
  · refine publish_cascades calm (same.trans spans) updates linked there ?_ conveys
    rw [(evaluate_ok evaluated).1]
    exact present

/-! ## Dispatching -/

/-- Clients and slots are quiet. -/
theorem react_cascades {event : Event} {reaction : Reaction} (free : reaction.IsFree)
    (calm : s.Calm v) :
    Cascades v (Entry.IsQuiet s.world.spans) (react fire event reaction) s := by
  cases reaction with
  | client callback =>
      rcases enrolled : s.callbacks[callback]? with _ | program
      · have nothing : (react fire event (.client callback)).result s =
            (pure () : Run σ Unit).result s := by
          rw [react, result_bind_ok (result_get s), enrolled]
        exact (cascades_pure () calm).congr nothing
      · have works : (react fire event (.client callback)).result s =
            (exec fire (program event)).result s := by
          rw [react, result_bind_ok (result_get s), enrolled]
        have quiet := calm.quiet program (List.mem_of_getElem? enrolled) event
        exact (cascades_exec quiet calm).congr works
  | reapply binding slot =>
      exact cascades_of_apart calm (concludes_reapply binding slot event.name)
        (apart_reapply binding slot event.name)
  | refresh model property => exact free.elim
  | push binding slot => exact free.elim

theorem deliver_cascades {signal : Signal} {began : Nat} {listeners : List (Nat × Reaction)}
    (calm : s.Calm v) (spans : s.world.spans = outer ++ inner)
    (updates : chain.map (·.name) = Span.updates inner) (linked : chain.IsChain (v.Passes origin))
    (each : ∀ l ∈ listeners, l.2.IsFree ∨ ∃ b : Accessor, l.2 = .refresh b.model b.name ∧
      (b ∈ v.computed → (chain ++ [b]).IsChain (v.Passes origin) ∧
        Conveys v origin outer fire b (chain ++ [b]))) :
    Cascades v (Entry.IsLinked (v.Passes origin) outer) (deliver fire signal began listeners) s := by
  induction listeners generalizing s with
  | nil => exact cascades_pure () calm
  | cons listener rest ih =>
      obtain ⟨number, reaction⟩ := listener
      have others := fun (t : State σ) calm spans =>
        ih (s := t) calm spans fun l later => each l (List.mem_cons_of_mem _ later)
      by_cases registered : isRegistered s.world signal number = true
      · have reacts : Cascades v (Entry.IsLinked (v.Passes origin) outer)
            (react fire (eventOf signal) reaction) (s.alter (.happen (.called began number))) := by
          have noted := calm_happen (.called began number) calm
          rcases each _ List.mem_cons_self with free | ⟨b, same, fed⟩
          · refine (react_cascades free noted).mono fun entry quiet => ?_
            rw [State.alter_world, show (World.happen _ s.world).spans = s.world.spans from rfl,
              spans] at quiet
            exact quiet.isLinked updates linked
          · dsimp only at same
            subst same
            exact refresh_cascades noted spans updates linked fed
        have called : Cascades v (Entry.IsLinked (v.Passes origin) outer) (do
            react fire (eventOf signal) reaction
            deliver fire signal began rest) (s.alter (.happen (.called began number))) :=
          reacts.bind fun _ t _ calm same => others t calm (same.trans spans)
        refine called.after_happen ?_ (Entry.isLinked_of_plain rfl spans updates linked)
        rw [deliver, result_world_bind, if_pos registered]
        rfl
      · have skips : (deliver fire signal began ((number, reaction) :: rest)).result s =
            (deliver fire signal began rest).result s := by
          rw [deliver, result_world_bind, if_neg registered]
        exact (others s calm spans).congr skips

/-- A change of a name that changes of the model get to sets off a cascade that is no deeper
than its rank. -/
theorem conveys_of_rank {rank : Accessor → Nat} (warranted : v.Warranted)
    (falls : ∀ a b, v.Passes origin a b → rank b < rank a) {depth : Nat} {a : Accessor}
    (reaches : v.Reaches origin a) (deep : rank a < depth) (linked : chain.IsChain (v.Passes origin))
    (longer : ∀ b, v.Feeds a b → (chain ++ [b]).IsChain (v.Passes origin)) :
    Conveys v origin outer (dispatch (σ := σ) depth) a chain := by
  induction depth generalizing a chain with
  | zero => omega
  | succ depth ih =>
      intro hub event value s inner announces calm spans updates
      refine Cascades.after_happen (result_dispatch depth _ s)
        (Entry.isLinked_of_plain rfl spans updates linked)
        (deliver_cascades (calm_happen _ calm) spans updates linked fun l called => ?_)
      obtain ⟨number, reaction⟩ := l
      rcases calm.confined.heard _ reaction (Follower.mem_listeners_event.mp called) with
        registered | free
      · rcases warranted _ reaction registered with free | ⟨other, name, rfl, -⟩
        · exact Or.inl free
        · refine Or.inr ⟨⟨name, other⟩, rfl, fun listed => ?_⟩
          have feeds : v.Feeds a ⟨name, other⟩ := ⟨listed, _, registered, announces⟩
          have lower := falls a _ ⟨reaches, feeds⟩
          have reachesThen := reaches.step feeds
          refine ⟨longer _ feeds, ih reachesThen (by omega) (longer _ feeds) fun next fed => ?_⟩
          rw [List.append_assoc]
          exact List.isChain_append_cons_cons.mpr
            ⟨longer _ feeds, ⟨reachesThen, fed⟩, .singleton next⟩
      · exact Or.inl free

/-! ## Writing -/

theorem cascades_applySetter (name : String) (setter : Setter σ) (value : Json)
    (calm : s.Calm v) :
    Cascades v (Entry.IsQuiet s.world.spans) (applySetter name setter value) s := by
  have mapped : State.Calm v { s with client := (setter value s.client).2 } :=
    ⟨calm.confined, calm.quiet⟩
  rw [Cascades, applySetter, result_bind_ok (result_get _),
    result_bind_ok (rfl : (modify _ : Run σ PUnit).result _ = (.ok ⟨⟩, _))]
  split
  · exact cascades_pure _ mapped
  · exact cascades_of_apart mapped (concludes_fail _) (apart_fail _)

theorem cascades_route (attributes routed : Attributes) (calm : s.Calm v) :
    Cascades v (Entry.IsQuiet s.world.spans) (route model attributes routed) s := by
  induction attributes generalizing routed s with
  | nil => exact cascades_pure _ calm
  | cons entry rest ih =>
      obtain ⟨name, value⟩ := entry
      refine Cascades.congr (result_world_bind _ s) ?_
      split
      · exact ih _ calm
      · split
        · exact cascades_of_apart calm (concludes_fail _) (apart_fail _)
        · rename_i setter _
          refine (cascades_applySetter name setter value calm).bind fun mapped t _ calm spans => ?_
          rw [← spans]
          exact ih _ calm

theorem writeStore_cascades (pending : Attributes) (calm : s.Calm v)
    (there : v.models.get? model = some old)
    (conveys : ∀ name, Conveys v model s.world.spans fire ⟨name, model⟩ []) :
    Cascades v (Entry.IsLinked (v.Passes model) s.world.spans) (writeStore fire model pending) s := by
  rcases present : s.world.models.get? model with _ | m
  · have nothing : (writeStore fire model pending).result s = (pure () : Run σ Unit).result s := by
      rw [writeStore, result_world_bind, present]
    exact (cascades_pure () calm).congr nothing
  · refine Cascades.after (result_writeStore present fire pending) rfl (World.before_of_eq rfl)
      (World.notes_of_eq rfl) ?_
    exact announce_cascades _ ⟨calm.confined.put present (Model.sameShape_store _ m), calm.quiet⟩
      (List.append_nil _).symm rfl ⟨old, there, (calm.confined.hub_eq there present).symm⟩
      fun change _ => conveys change.1

/-- A write sets off a cascade that comes to an end, when dispatches may nest deeper than
anything ranks. -/
theorem write_cascades {rank : Accessor → Nat} {depth : Nat} (attributes : Attributes)
    (warranted : v.Warranted) (falls : ∀ a b, v.Passes model a b → rank b < rank a)
    (deep : ∀ a, rank a < depth) (there : v.models.get? model = some old) (calm : s.Calm v) :
    Cascades v (Entry.IsLinked (v.Passes model) s.world.spans)
      (write (dispatch depth) model attributes) s := by
  refine Cascades.keeping ?_
  have routed : Cascades v (Entry.IsLinked (v.Passes model) s.world.spans)
      (route model attributes []) (s.alter (.hold (.model model))) :=
    (cascades_route attributes [] (calm_hold (.model model) calm)).mono
      fun _ quiet => quiet.isLinked_nil
  refine routed.bind fun pending t _ calm spans => ?_
  rw [show s.world.spans = t.world.spans from spans.symm]
  exact writeStore_cascades pending calm there fun name =>
    conveys_of_rank warranted falls (Or.inl rfl) (deep _) .nil fun b _ => .singleton b

end Run

end LiveBinding
