/-
# LiveBinding.Proofs.World.Sound -- what holds of every world that comes about

A sound world is one in which every event that has to be heard is heard: each
property is subscribed to whatever its getter reads from its own model, each
subscription is on its hub, and what properties keep is in the store too, unless
they are virtual (`World.Sound`).

What does not concern a model leaves it as it is, or lets it go (`World.Leaves`).  What
does not concern any also evaluates nothing, and lets no property hear of more
(`World.Apart`).  Each operation on worlds that is neither a write nor a part of binding
computed properties is shown to be of that kind.
-/
import LiveBinding.Proofs.Model.Basic
import LiveBinding.Proofs.Run.Journal
import LiveBinding.Proofs.World.Registered

namespace LiveBinding

set_option autoImplicit false

variable {σ : Type}

/-! ## Soundness -/

/-- The property hears of whatever its getter reads from a model with this hub. -/
structure Property.Wired (hubs : Hubs) (model : Ref .model) (hub : Ref .hub)
    (p : Property σ) : Prop where
  registered : ∀ s ∈ p.subscriptions, Registered hubs s (.refresh model p.name)
  subscribed : ∀ d ∈ p.dependencies, d.hub = hub → ∃ s ∈ p.subscriptions, s.hub = d.hub ∧ s.event = d.event
  captured : ∀ names, p.getter.Asks names → ∀ name ∈ names, .ofRead hub name ∈ p.dependencies

structure Model.Wired (hubs : Hubs) (model : Ref .model) (m : Model σ) : Prop where
  announced : (hubs.get? m.hub).isSome
  properties : ∀ p ∈ m.properties, p.Wired hubs model m.hub

namespace World

/-- Hubs are numbered, and what models and bindings subscribed is on them. -/
structure Anchored (w : World σ) : Prop where
  numbered : Numbered w.hubs
  models : ∀ model m, w.models.get? model = some m → m.Wired w.hubs model
  bindings : ∀ binding b, w.bindings.get? binding = some b →
    ∀ s ∈ b.subscriptions, ∃ slot, Registered w.hubs s (.reapply binding slot)

/-- Whatever applies a slot anew is held by its binding, which is not disposed. -/
def Tended (hubs : Hubs) (bindings : Table .binding Binding) : Prop :=
  ∀ s binding slot, Registered hubs s (.reapply binding slot) →
    ∃ b, bindings.get? binding = some b ∧ b.disposed = false ∧ s ∈ b.subscriptions

/-- What models and bindings subscribed is on the hubs, and hubs apply no slots but
those of live bindings. -/
structure Wired (w : World σ) : Prop extends w.Anchored where
  tended : Tended w.hubs w.bindings

/-- The model, if it is regular, stores what its properties keep. -/
def StoredAt (w : World σ) (model : Ref .model) : Prop :=
  ∀ m, w.models.get? model = some m → m.IsRegular → m.StoresComputed

/-- Everything is wired, and every model stores what its properties keep. -/
structure Sound (w : World σ) : Prop where
  wired : w.Wired
  stored : ∀ model, w.StoredAt model

end World

/-! ## Changes of hubs -/

namespace Property.Wired

variable {hubs hubs' : Hubs} {model : Ref .model} {hub : Ref .hub} {p q : Property σ}

theorem move (wired : p.Wired hubs model hub)
    (stands : ∀ s, Registered hubs s (.refresh model p.name) →
      Registered hubs' s (.refresh model p.name)) : p.Wired hubs' model hub where
  registered s listed := stands s (wired.registered s listed)
  subscribed := wired.subscribed
  captured := wired.captured

theorem of_shape (wired : p.Wired hubs model hub) (shape : q.shape = p.shape) :
    q.Wired hubs model hub where
  registered := by
    rw [Property.subscriptions_of_shape shape, Property.name_of_shape shape]
    exact wired.registered
  subscribed := by
    rw [Property.subscriptions_of_shape shape, Property.dependencies_of_shape shape]
    exact wired.subscribed
  captured := by
    rw [Property.getter_of_shape shape, Property.dependencies_of_shape shape]
    exact wired.captured

/-- What the getter asks for is subscribed to. -/
theorem hears (wired : p.Wired hubs model hub) {names : List String} (asks : p.getter.Asks names)
    {name : String} (among : name ∈ names) :
    ∃ s ∈ p.subscriptions, s.hub = hub ∧ s.event = changeOf name :=
  wired.subscribed _ (wired.captured names asks name among) rfl

end Property.Wired

theorem Model.Wired.of_shape {hubs : Hubs} {model : Ref .model} {m m' : Model σ}
    (wired : m.Wired hubs model) (same : Model.SameShape m m') : m'.Wired hubs model where
  announced := by
    rw [same.1]
    exact wired.announced
  properties p listed := by
    obtain ⟨q, listed', shape⟩ := same.symm.mem listed
    rw [same.1]
    exact (wired.properties q listed').of_shape shape.symm

namespace World

variable {v w : World σ}

/-! ## Changes of hubs, in a world -/

theorem cancelAll_tables (ss : List Subscription) (w : World σ) :
    (w.cancelAll ss).models = w.models ∧ (w.cancelAll ss).bindings = w.bindings ∧
      (w.cancelAll ss).documents = w.documents ∧ (w.cancelAll ss).views = w.views ∧
      (w.cancelAll ss).held = w.held := by
  induction ss generalizing w with
  | nil => exact ⟨rfl, rfl, rfl, rfl, rfl⟩
  | cons s rest ih => exact ih (w.cancel s)

@[simp] theorem models_cancelAll (ss : List Subscription) (w : World σ) :
    (w.cancelAll ss).models = w.models :=
  (cancelAll_tables ss w).1

@[simp] theorem bindings_cancelAll (ss : List Subscription) (w : World σ) :
    (w.cancelAll ss).bindings = w.bindings :=
  (cancelAll_tables ss w).2.1

@[simp] theorem spans_cancelAll (ss : List Subscription) (w : World σ) :
    (w.cancelAll ss).spans = w.spans := by
  induction ss generalizing w with
  | nil => rfl
  | cons s rest ih => exact ih (w.cancel s)

theorem Tended.of_traced {hubs hubs' : Hubs} {bindings : Table .binding Binding}
    (tended : Tended hubs bindings) (traced : Traced hubs hubs') : Tended hubs' bindings :=
  fun s binding slot registered => tended s binding slot (traced s binding slot registered)

namespace Anchored

/-- Hubs change, and what does not belong to clients stands. -/
theorem move (wired : v.Anchored) (numbered : Numbered w.hubs)
    (stands : ∀ s (reaction : Reaction), reaction.owner ≠ .client → Registered v.hubs s reaction →
      Registered w.hubs s reaction)
    (exists_ : ∀ ref, (v.hubs.get? ref).isSome → (w.hubs.get? ref).isSome)
    (models : w.models = v.models) (bindings : w.bindings = v.bindings) : w.Anchored where
  numbered := numbered
  models model m present := by
    rw [models] at present
    have was := wired.models model m present
    exact ⟨exists_ _ was.announced, fun p listed =>
      (was.properties p listed).move fun s => stands s _ nofun⟩
  bindings binding b present s listed := by
    rw [bindings] at present
    obtain ⟨slot, registered⟩ := wired.bindings binding b present s listed
    exact ⟨slot, stands s _ nofun registered⟩

/-- An owner that has nothing left ends what it had subscribed. -/
theorem cancelAll {ss : List Subscription} (owner : Owner) (wired : w.Anchored)
    (owned : ∀ s ∈ ss, ∃ r : Reaction, r.owner = owner ∧ Registered w.hubs s r)
    (noProperty : ∀ model m, owner = .model model → w.models.get? model = some m → m.properties = [])
    (noBinding : ∀ binding b, owner = .binding binding → w.bindings.get? binding = some b →
      b.subscriptions = []) : (w.cancelAll ss).Anchored := by
  refine ⟨numbered_cancelAll ss wired.numbered, ?_, ?_⟩
  · intro model m present
    rw [models_cancelAll] at present
    have was := wired.models model m present
    refine ⟨isSome_cancelAll ss was.announced, fun p listed => (was.properties p listed).move ?_⟩
    intro s registered
    refine registered.cancelAll wired.numbered owned ?_
    intro same
    rw [noProperty model m same.symm present] at listed
    cases listed
  · intro binding b present s listed
    rw [bindings_cancelAll] at present
    obtain ⟨slot, registered⟩ := wired.bindings binding b present s listed
    refine ⟨slot, registered.cancelAll wired.numbered owned ?_⟩
    intro same
    rw [noBinding binding b same.symm present] at listed
    cases listed

end Anchored

theorem Wired.of_continues (wired : v.Wired) (continues : Continues v.hubs w.hubs)
    (traced : Traced v.hubs w.hubs) (models : w.models = v.models)
    (bindings : w.bindings = v.bindings) : w.Wired where
  toAnchored := wired.move (continues.numbered wired.numbered) (fun _ _ _ => continues.stands)
    (fun _ => continues.exists_) models bindings
  tended := by
    rw [bindings]
    exact wired.tended.of_traced traced

/-- A model that has nothing left ends what it had subscribed. -/
theorem Wired.cancelAll {ss : List Subscription} {model : Ref .model} (wired : w.Wired)
    (owned : ∀ s ∈ ss, ∃ r : Reaction, r.owner = .model model ∧ Registered w.hubs s r)
    (noProperty : ∀ m, w.models.get? model = some m → m.properties = []) :
    (w.cancelAll ss).Wired where
  toAnchored := wired.toAnchored.cancelAll (.model model) owned
    (by rintro other m ⟨⟩ present; exact noProperty m present) nofun
  tended := by
    rw [bindings_cancelAll]
    exact wired.tended.of_traced (traced_cancelAll ss w)

/-! ## Leaving models alone -/

/-- On the way from `v` to `w` every model is left as it is, or goes; a new one has
no computed properties. -/
structure Leaves (v w : World σ) : Prop where
  wired : v.Wired → w.Wired
  issued : v.models.rows.length ≤ w.models.rows.length
  rows : ∀ model : Ref .model, model.index < v.models.rows.length →
    w.models.get? model = v.models.get? model ∨ w.models.get? model = none
  new : ∀ (model : Ref .model) m, v.models.rows.length ≤ model.index →
    w.models.get? model = some m → m.properties = []

/-- There is no model that was not issued. -/
theorem get?_of_beyond {model : Ref .model} {m : Model σ} (beyond : w.models.rows.length ≤ model.index) :
    w.models.get? model ≠ some m :=
  fun present => absurd (Table.lt_of_get? present) (Nat.not_lt.mpr beyond)

theorem Leaves.refl (w : World σ) : w.Leaves w where
  wired := id
  issued := Nat.le_refl _
  rows _ _ := Or.inl rfl
  new _ _ beyond present := absurd present (get?_of_beyond beyond)

theorem Leaves.trans {u : World σ} (first : u.Leaves v) (then_ : v.Leaves w) : u.Leaves w where
  wired := then_.wired ∘ first.wired
  issued := Nat.le_trans first.issued then_.issued
  rows model below := by
    rcases then_.rows model (Nat.lt_of_lt_of_le below first.issued) with same | gone
    · rw [same]
      exact first.rows model below
    · exact Or.inr gone
  new model m beyond present := by
    rcases Nat.lt_or_ge model.index v.models.rows.length with below | beyondThen
    · rcases then_.rows model below with same | gone
      · exact first.new model m beyond (same.symm.trans present)
      · rw [gone] at present
        cases present
    · exact then_.new model m beyondThen present

/-- A model that is there was there, the same. -/
theorem Leaves.row (leaves : v.Leaves w) {model : Ref .model} {m : Model σ}
    (issued : model.index < v.models.rows.length) (present : w.models.get? model = some m) :
    v.models.get? model = some m := by
  rcases leaves.rows model issued with same | gone
  · exact same.symm.trans present
  · rw [gone] at present
    cases present

/-- What models store is left alone with them. -/
theorem Leaves.storedAt (leaves : v.Leaves w) {model : Ref .model} (stored : v.StoredAt model) :
    w.StoredAt model := by
  intro m present regular
  rcases Nat.lt_or_ge model.index v.models.rows.length with below | beyond
  · exact stored m (leaves.row below present) regular
  · intro p listed
    rw [leaves.new model m beyond present] at listed
    cases listed

theorem Leaves.sound (leaves : v.Leaves w) (sound : v.Sound) : w.Sound :=
  ⟨leaves.wired sound.wired, fun model => leaves.storedAt (sound.stored model)⟩

/-- Models are not touched at all. -/
theorem Leaves.of_models (models : w.models = v.models) (wired : v.Wired → w.Wired) :
    v.Leaves w where
  wired := wired
  issued := Nat.le_of_eq (by rw [models])
  rows _ _ := Or.inl (by rw [models])
  new _ _ beyond present := by
    rw [models] at present
    exact absurd present (get?_of_beyond beyond)

/-- Only documents, views, handles, the journal or spans are touched. -/
theorem Leaves.of_tables (hubs : w.hubs = v.hubs) (models : w.models = v.models)
    (bindings : w.bindings = v.bindings) : v.Leaves w :=
  .of_models models fun wired =>
    wired.of_continues (hubs ▸ .refl _) (hubs ▸ .refl _) models bindings

theorem leaves_subscribe (hub : Ref .hub) (event : String) (reaction : Reaction)
    (other : ∀ binding slot, reaction ≠ .reapply binding slot) (w : World σ) :
    w.Leaves (w.subscribe hub event reaction).2 := by
  have tables : (w.subscribe hub event reaction).2.models = w.models ∧
      (w.subscribe hub event reaction).2.bindings = w.bindings := by
    unfold subscribe
    split <;> exact ⟨rfl, rfl⟩
  exact .of_models tables.1 fun wired => wired.of_continues
    (continues_subscribe hub event reaction w) (traced_subscribe hub event other w) tables.1 tables.2

/-! ## Leaving computed properties alone -/

/-- Moreover nothing is evaluated, no property hears of anything that it did not hear of
before, and nobody but clients and slots listens to a new model. -/
structure Apart (v w : World σ) : Prop extends v.Leaves w where
  heard : Heard v.hubs w.hubs
  silent : ∀ (model : Ref .model) m, v.models.rows.length ≤ model.index →
    w.models.get? model = some m → ∀ s reaction, Registered w.hubs s reaction → s.hub = m.hub →
      reaction.IsFree
  spans : w.spans = v.spans
  before : v.Before w
  noted : v.Notes (Entry.IsQuiet v.spans) w

theorem Apart.refl (w : World σ) : w.Apart w where
  toLeaves := .refl w
  heard := .refl _
  silent _ _ beyond present := absurd present (get?_of_beyond beyond)
  spans := rfl
  before := .refl w
  noted := notes_of_eq rfl

theorem Apart.trans {u : World σ} (first : u.Apart v) (then_ : v.Apart w) : u.Apart w where
  toLeaves := first.toLeaves.trans then_.toLeaves
  heard := first.heard.trans then_.heard
  silent model m beyond present s reaction registered mine := by
    rcases Nat.lt_or_ge model.index v.models.rows.length with below | beyondThen
    · rcases then_.heard s reaction registered with before | free
      · exact first.silent model m beyond (then_.row below present) s reaction before mine
      · exact free
    · exact then_.silent model m beyondThen present s reaction registered mine
  spans := then_.spans.trans first.spans
  before := first.before.trans then_.before
  noted := first.noted.trans first.before then_.before (by
    rw [← first.spans]
    exact then_.noted)

/-- Models are not touched at all, and nothing is noted. -/
theorem Apart.of_models (models : w.models = v.models) (wired : v.Wired → w.Wired)
    (heard : Heard v.hubs w.hubs) (spans : w.spans = v.spans) (journal : w.journal = v.journal) :
    v.Apart w where
  toLeaves := .of_models models wired
  heard := heard
  silent _ _ beyond present := by
    rw [models] at present
    exact absurd present (get?_of_beyond beyond)
  spans := spans
  before := before_of_eq journal
  noted := notes_of_eq journal

/-- Only documents, views or handles are touched. -/
theorem Apart.of_tables (hubs : w.hubs = v.hubs) (models : w.models = v.models)
    (bindings : w.bindings = v.bindings) (spans : w.spans = v.spans)
    (journal : w.journal = v.journal) : v.Apart w :=
  .of_models models (Leaves.of_tables hubs models bindings).wired (hubs ▸ .refl _) spans journal

/-- What is done within a span that is no update. -/
theorem Apart.within {span : Span} (plain : span.updated = none)
    (apart : Apart { v with spans := v.spans ++ [span] } w) : v.Apart { w with spans := v.spans } where
  toLeaves := by
    have opened : v.Leaves { v with spans := v.spans ++ [span] } := .of_tables rfl rfl rfl
    exact (opened.trans apart.toLeaves).trans (.of_tables rfl rfl rfl)
  heard := apart.heard
  silent := apart.silent
  spans := rfl
  before := apart.before
  noted entry added := by
    obtain ⟨quiet, inner, spans, none⟩ := apart.noted entry added
    refine ⟨quiet, span :: inner, ?_, ?_⟩
    · rw [spans]
      exact List.append_assoc _ _ _
    · rw [Span.updates, List.filterMap_cons, plain]
      exact none

theorem apart_happen {happening : Happening} (quiet : happening.evaluating = []) (w : World σ) :
    w.Apart (w.happen happening) where
  toLeaves := .of_tables rfl rfl rfl
  heard := .refl _
  silent := (Apart.refl w).silent
  spans := rfl
  before := before_happen _ w
  noted := notes_happen.mpr ⟨quiet, [], (List.append_nil _).symm, rfl⟩

theorem apart_report (message : Message) (w : World σ) : w.Apart (w.report message) :=
  apart_happen rfl w

theorem apart_hold (handle : Handle) (w : World σ) : w.Apart (w.hold handle) :=
  .of_tables rfl rfl rfl rfl rfl

theorem apart_openHub (w : World σ) : w.Apart w.openHub.2 :=
  .of_models rfl (fun wired => wired.of_continues (.insert w.hubs) (.insert w.hubs) rfl rfl)
    (.insert w.hubs) rfl rfl

theorem apart_openDocument (w : World σ) : w.Apart w.openDocument.2 :=
  .of_tables rfl rfl rfl rfl rfl

theorem apart_openView (view : View) (w : World σ) : w.Apart (w.openView view).2 :=
  .of_tables rfl rfl rfl rfl rfl

theorem apart_editDocument (document : Ref .document) (f : Document → Document) (w : World σ) :
    w.Apart (w.editDocument document f) :=
  .of_tables rfl rfl rfl rfl rfl

theorem apart_subscribe (hub : Ref .hub) (event : String) (callback : Nat) (w : World σ) :
    w.Apart (w.subscribe hub event (.client callback)).2 := by
  have others : (w.subscribe hub event (.client callback)).2.models = w.models ∧
      (w.subscribe hub event (.client callback)).2.spans = w.spans := by
    unfold subscribe
    split <;> exact ⟨rfl, rfl⟩
  exact .of_models others.1 (leaves_subscribe hub event (.client callback) nofun w).wired
    (heard_subscribe hub event (.client callback) trivial w) others.2
    (journal_subscribe hub event _ w)

theorem apart_listen (document : Ref .document) (element : Ref .element) (reaction : EditReaction)
    (w : World σ) : w.Apart (w.listen document element reaction).2 := by
  unfold listen
  split
  · exact apart_editDocument _ _ w
  · exact .refl w

theorem apart_withdraw (s : Subscription) (w : World σ) : w.Apart (w.withdraw s) :=
  .of_models rfl (fun wired =>
    { wired.move (numbered_filter wired.numbered s.hub _)
        (fun _ _ other registered => registered.withdraw other) (fun _ => Table.isSome_update) rfl rfl with
      tended := wired.tended.of_traced (.filter s.hub _ w.hubs) }) (.filter s.hub _ w.hubs) rfl rfl

theorem apart_openModel (attributes : Attributes) (w : World σ) :
    w.Apart (w.openModel attributes).2 where
  wired wired := by
    have continues := Continues.insert w.hubs
    refine ⟨⟨continues.numbered wired.numbered, ?_, ?_⟩, wired.tended.of_traced (.insert w.hubs)⟩
    · intro model m present
      rcases Table.get?_insert_some.mp present with ⟨-, rfl⟩ | old
      · refine ⟨?_, nofun⟩
        show ((w.hubs.insert .empty).get? w.hubs.fresh).isSome
        rw [Table.get?_insert_fresh]
        rfl
      · have was := wired.models model m old
        exact ⟨continues.exists_ was.announced, fun p listed =>
          (was.properties p listed).move fun _ => continues.stands⟩
    · intro binding b present s listed
      obtain ⟨slot, registered⟩ := wired.bindings binding b present s listed
      exact ⟨slot, continues.stands registered⟩
  issued := by
    show w.models.rows.length ≤ (w.models.rows ++ [_]).length
    simp
  rows model below := by
    refine Or.inl (Table.get?_insert_of_ne _ ?_)
    rintro rfl
    exact Nat.lt_irrefl _ below
  new model m beyond present := by
    rcases Table.get?_insert_some.mp present with ⟨-, rfl⟩ | old
    · rfl
    · exact absurd old (get?_of_beyond beyond)
  heard := .insert w.hubs
  silent model m beyond present s reaction registered mine := by
    rcases Table.get?_insert_some.mp present with ⟨-, rfl⟩ | old
    · obtain ⟨hub, there, listed⟩ := registered
      rw [mine, show (w.openModel attributes).2.hubs = w.hubs.insert .empty from rfl,
        Table.get?_insert_fresh] at there
      cases there
      cases listed
    · exact absurd old (get?_of_beyond beyond)
  spans := rfl
  before := before_of_eq rfl
  noted := notes_of_eq rfl

/-! ## Letting go -/

/-- What is subscribed for the properties of a model belongs to the model. -/
theorem Wired.owned {model : Ref .model} {m : Model σ} (wired : w.Wired)
    (present : w.models.get? model = some m) :
    ∀ s ∈ m.properties.flatMap (·.subscriptions),
      ∃ r : Reaction, r.owner = .model model ∧ Registered w.hubs s r := by
  intro s among
  obtain ⟨p, listed, here⟩ := List.mem_flatMap.mp among
  exact ⟨_, rfl, ((wired.models model m present).properties p listed).registered s here⟩

end World

end LiveBinding
