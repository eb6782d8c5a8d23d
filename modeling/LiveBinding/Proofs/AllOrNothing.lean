/-
# LiveBinding.Proofs.AllOrNothing -- a view is bound as a whole or not at all

Binding a view resolves all its declarations before it touches an element.  It
ends well exactly when every declaration whose selector finds an element can be
resolved, and then the view holds a binding for each of them.  Otherwise the former
bindings are released, the journal says what went wrong, and that is all
(`bind_all_or_nothing`).

Nothing can fail after resolving: whatever was looked up can be compiled, and
compiling is all that could fail while declarations are attached.
-/
import LiveBinding.Proofs.Run.Attach
import LiveBinding.Proofs.World.Unbind
import LiveBinding.Run.Bind

namespace LiveBinding

set_option autoImplicit false

variable {σ : Type}

def Happening.IsRemark : Happening → Prop
  | .message (.selectorSkipped _) => True
  | .failed _ => True
  | _ => False

namespace World

def noting (entries : List Entry) (w : World σ) : World σ :=
  { w with journal := w.journal ++ entries }

def found? (w : World σ) (v : View) (selector : String) : Option (Ref .element) :=
  (w.documents.get? v.document).bind (·.query v.root selector)

/-- The selector finds an element below the root of the view. -/
def Finds (w : World σ) (v : View) (selector : String) : Prop :=
  ∃ d element, w.documents.get? v.document = some d ∧ d.query v.root selector = some element

/-- The model stores or computes an attribute of this name. -/
def Knows (w : World σ) (model : Ref .model) (name : String) : Prop :=
  ∃ m, w.models.get? model = some m ∧
    (Fields.contains name m.store = true ∨ m.isComputed name = true)

/-- The text is a declaration, with operators of the catalog of the view and with
names that its model knows. -/
def Resolves (w : World σ) (v : View) (selector text : String) : Prop :=
  ∃ d, Declaration.read selector text = .ok d ∧
    (∀ operator ∈ d.operators, Index.contains operator v.catalog = true) ∧
    ∀ name ∈ d.names, w.Knows v.model name.1

/-- The binding is that of a declaration of the view: it has what the text says at the element
that the selector finds, and a slot for each operator, which the catalog has. -/
structure Attached (before after : World σ) (v : View) (env : Environment)
    (line : String × String) (binding : Ref .binding) (b : Binding) : Prop where
  present : after.bindings.get? binding = some b
  live : b.disposed = false
  document : b.document = v.document
  element : before.found? v line.1 = some b.element
  declaration : Declaration.read line.1 line.2 = .ok b.declaration
  env : b.env = env
  slots : b.slots.map (·.name) = b.declaration.operators
  operators : ∀ slot ∈ b.slots, Index.get? slot.name v.catalog = some slot.operator

end World

/-! ## What a model knows -/

theorem Model.mem_names {m : Model σ} {name : String} :
    name ∈ m.names ↔ Fields.contains name m.store = true ∨ m.isComputed name = true := by
  have collected : ∀ (ps : List (Property σ)) (known : List String),
      name ∈ ps.foldl (fun known property =>
        if property.name ∈ known then known else known ++ [property.name]) known ↔
        name ∈ known ∨ ∃ p ∈ ps, p.name = name := by
    intro ps
    induction ps with
    | nil => simp
    | cons p rest ih =>
        intro known
        rw [List.foldl_cons, ih]
        by_cases listed : p.name ∈ known
        · rw [if_pos listed]
          constructor
          · rintro (before | ⟨q, later, named⟩)
            · exact Or.inl before
            · exact Or.inr ⟨q, List.mem_cons_of_mem _ later, named⟩
          · rintro (before | ⟨q, among, named⟩)
            · exact Or.inl before
            · rcases List.mem_cons.mp among with rfl | later
              · exact Or.inl (named ▸ listed)
              · exact Or.inr ⟨q, later, named⟩
        · rw [if_neg listed]
          simp [or_assoc, eq_comm]
  rw [Model.names, collected, Fields.contains_iff_mem_keys, Model.isComputed, Model.property?,
    List.find?_isSome]
  simp

namespace World

variable {w : World σ} {v : View}

theorem isSome_found?_iff {selector : String} :
    (w.found? v selector).isSome = true ↔ w.Finds v selector := by
  rw [Option.isSome_iff_exists]
  constructor
  · rintro ⟨element, found⟩
    obtain ⟨d, present, query⟩ := Option.bind_eq_some_iff.mp found
    exact ⟨d, element, present, query⟩
  · rintro ⟨d, element, present, query⟩
    exact ⟨element, Option.bind_eq_some_iff.mpr ⟨d, present, query⟩⟩

theorem contains_environmentOf {model : Ref .model} {name : String} :
    Index.contains name (Run.environmentOf w model) = true ↔ w.Knows model name := by
  rw [Run.environmentOf]
  split
  · rename_i m present
    rw [Environment.contains_ofNames, Model.mem_names]
    constructor
    · exact fun known => ⟨m, present, known⟩
    · rintro ⟨m', present', known⟩
      rw [present] at present'
      cases present'
      exact known
  · rename_i gone
    constructor
    · exact fun none => nomatch none
    · rintro ⟨m, present, -⟩
      rw [gone] at present
      cases present

/-- Reading and resolving a text ends well when everything it uses is there. -/
theorem resolve_ok_iff {selector text : String} :
    (∃ r, Run.resolve selector text v.catalog (Run.environmentOf w v.model) = .ok r) ↔
      w.Resolves v selector text := by
  rw [Run.resolve]
  constructor
  · rintro ⟨r, resolved⟩
    split at resolved
    · rename_i d read
      obtain ⟨operators, names⟩ := Declaration.resolve_ok_iff.mp ⟨r, resolved⟩
      exact ⟨d, read, operators, fun name among => contains_environmentOf.mp (names name among)⟩
    · cases resolved
  · rintro ⟨d, read, operators, names⟩
    rw [read]
    exact Declaration.resolve_ok_iff.mpr
      ⟨operators, fun name among => contains_environmentOf.mpr (names name among)⟩

end World

/-! ## The two phases -/

namespace Run

theorem read_of_resolve {selector text : String} {catalog : Catalog} {env : Environment}
    {r : Resolved} (resolved : resolve selector text catalog env = .ok r) :
    Declaration.read selector text = .ok r.declaration := by
  rw [resolve] at resolved
  split at resolved
  · rename_i d read
    rw [(Declaration.attachable_of_resolve resolved).1]
    exact read
  · cases resolved

theorem attachable_of_resolve {selector text : String} {catalog : Catalog} {env : Environment}
    {r : Resolved} (resolved : resolve selector text catalog env = .ok r) :
    r.Attachable env catalog := by
  rw [resolve] at resolved
  split at resolved
  · exact (Declaration.attachable_of_resolve resolved).2
  · cases resolved

/-- What the declarations whose selectors find an element were resolved to, with that element. -/
def Matches (v : View) (env : Environment) (w : World σ) (declarations : List (String × String))
    (resolved : List (Ref .element × Resolved)) : Prop :=
  List.Forall₂
    (fun d entry => w.found? v d.1 = some entry.1 ∧ resolve d.1 d.2 v.catalog env = .ok entry.2)
    (declarations.filter fun d => (w.found? v d.1).isSome) resolved

namespace Matches

variable {v : View} {env : Environment} {w : World σ} {declarations : List (String × String)}
  {resolved : List (Ref .element × Resolved)}

theorem attachable (paired : Matches v env w declarations resolved) :
    ∀ entry ∈ resolved, entry.2.Attachable env v.catalog := by
  unfold Matches at paired
  generalize declarations.filter _ = those at paired
  induction paired with
  | nil => simp
  | cons first _ ih => exact List.forall_mem_cons.mpr ⟨attachable_of_resolve first.2, ih⟩

theorem all (paired : Matches v env w declarations resolved) {d : String × String}
    (listed : d ∈ declarations) (finds : w.Finds v d.1) :
    ∃ r, resolve d.1 d.2 v.catalog env = .ok r := by
  have among : d ∈ declarations.filter fun d => (w.found? v d.1).isSome :=
    List.mem_filter.mpr ⟨listed, World.isSome_found?_iff.mpr finds⟩
  unfold Matches at paired
  generalize declarations.filter _ = those at paired among
  induction paired with
  | nil => cases among
  | cons first _ ih =>
      rcases List.mem_cons.mp among with rfl | later
      · exact ⟨_, first.2⟩
      · exact ih later

end Matches

/-- How resolving declarations ends: but for remarks in the journal nothing is done.
It ends well when all declarations whose selectors find an element can be resolved,
and fails when one of them cannot. -/
inductive Resolution (v : View) (env : Environment) (s : State σ)
    (declarations : List (String × String)) : Prop where
  | well (entries : List Entry) (remarks : ∀ entry ∈ entries, entry.happening.IsRemark)
      (resolved : List (Ref .element × Resolved))
      (ended : (resolveAll v env declarations).result s = (.ok resolved, s.alter (.noting entries)))
      (paired : Matches v env s.world declarations resolved)
  | badly (entries : List Entry) (remarks : ∀ entry ∈ entries, entry.happening.IsRemark)
      (error : Error)
      (ended : (resolveAll v env declarations).result s =
        (.error (.failed error), s.alter (.noting entries)))
      (refused : ∃ d ∈ declarations, s.world.Finds v d.1 ∧
        ¬ ∃ r, resolve d.1 d.2 v.catalog env = .ok r)

variable {v : View} {env : Environment} {s : State σ} {selector text : String}
  {rest : List (String × String)}

/-- A selector that finds nothing is skipped. -/
theorem Resolution.skip (unfound : ¬ s.world.Finds v selector)
    (opened : (resolveAll v env ((selector, text) :: rest)).result s =
      (resolveAll v env rest).result (s.alter (.report (.selectorSkipped selector))))
    (others : Resolution v env (s.alter (.report (.selectorSkipped selector))) rest) :
    Resolution v env s ((selector, text) :: rest) := by
  have joined : ∀ entries, (s.alter (.report (.selectorSkipped selector))).alter (.noting entries) =
      s.alter (.noting (⟨.message (.selectorSkipped selector), s.world.spans⟩ :: entries)) := by
    intro entries
    simp [State.alter, World.noting, World.report, World.happen]
  have skipped : ∀ entries : List Entry, (∀ entry ∈ entries, entry.happening.IsRemark) →
      ∀ entry ∈ (⟨.message (.selectorSkipped selector), s.world.spans⟩ :: entries : List Entry),
        entry.happening.IsRemark := by
    intro entries remarks entry listed
    rcases List.mem_cons.mp listed with rfl | later
    · trivial
    · exact remarks entry later
  cases others with
  | well entries remarks resolved ended paired =>
      rw [joined] at ended
      refine .well _ (skipped entries remarks) resolved (opened.trans ended) ?_
      rw [Matches, List.filter_cons_of_neg (by rwa [World.isSome_found?_iff])]
      exact paired
  | badly entries remarks error ended refused =>
      obtain ⟨d, listed, refused⟩ := refused
      rw [joined] at ended
      exact .badly _ (skipped entries remarks) error (opened.trans ended)
        ⟨d, List.mem_cons_of_mem _ listed, refused⟩

/-- A declaration that cannot be resolved ends it. -/
theorem Resolution.refuse {error : Error} (finds : s.world.Finds v selector)
    (refused : resolve selector text v.catalog env = .error error)
    (opened : (resolveAll v env ((selector, text) :: rest)).result s =
      (.error (.failed error), s.alter (.happen (.failed error)))) :
    Resolution v env s ((selector, text) :: rest) := by
  refine .badly [⟨.failed error, s.world.spans⟩] ?_ error opened ⟨_, List.mem_cons_self, finds, ?_⟩
  · intro entry listed
    rw [List.mem_singleton.mp listed]
    trivial
  · rintro ⟨r, resolved⟩
    rw [refused] at resolved
    cases resolved

/-- One that can be resolved goes before the others. -/
theorem Resolution.accept {element : Ref .element} {r : Resolved}
    (found : s.world.found? v selector = some element)
    (accepted : resolve selector text v.catalog env = .ok r)
    (opened : (resolveAll v env ((selector, text) :: rest)).result s =
      (resolveAll v env rest >>= fun others => pure ((element, r) :: others)).result s)
    (others : Resolution v env s rest) : Resolution v env s ((selector, text) :: rest) := by
  cases others with
  | well entries remarks resolved ended paired =>
      refine .well entries remarks ((element, r) :: resolved)
        (opened.trans (result_bind_ok ended)) ?_
      rw [Matches, List.filter_cons_of_pos (by rw [found, Option.isSome_some])]
      exact .cons ⟨found, accepted⟩ paired
  | badly entries remarks error ended refused =>
      obtain ⟨d, listed, refused⟩ := refused
      exact .badly entries remarks error (opened.trans (result_bind_error ended))
        ⟨d, List.mem_cons_of_mem _ listed, refused⟩

theorem resolveAll_ends (v : View) (env : Environment) (declarations : List (String × String))
    (s : State σ) : Resolution v env s declarations := by
  induction declarations generalizing s with
  | nil =>
      have same : s.alter (.noting []) = s := by simp [State.alter, World.noting]
      refine .well [] (by simp) [] ?_ .nil
      rw [same]
      rfl
  | cons declaration rest ih =>
      obtain ⟨selector, text⟩ := declaration
      have opened : (resolveAll v env ((selector, text) :: rest)).result s = _ :=
        result_world_bind _ s
      rcases found : s.world.found? v selector with _ | element
      · rw [show (s.world.documents.get? v.document).bind _ = none from found] at opened
        refine .skip ?_ opened (ih _)
        rw [← World.isSome_found?_iff, found]
        exact Bool.false_ne_true
      · rw [show (s.world.documents.get? v.document).bind _ = some element from found] at opened
        dsimp only at opened
        have finds : s.world.Finds v selector :=
          World.isSome_found?_iff.mp (by rw [found, Option.isSome_some])
        rcases resolved : resolve selector text v.catalog env with error | r
        · rw [resolved] at opened
          exact .refuse finds resolved (opened.trans (result_bind_error rfl))
        · rw [resolved] at opened
          exact .accept found resolved (opened.trans (result_bind_ok rfl)) (ih s)

/-- What was resolved can be attached, whatever the world is by then, and views stay as they
are. -/
theorem attachAll_of_attachable {v : View} {env : Environment}
    {resolved : List (Ref .element × Resolved)}
    (attachable : ∀ entry ∈ resolved, entry.2.Attachable env v.catalog) (s : State σ) :
    ∃ bindings w, (attachAll v env resolved).result s = (.ok bindings, { s with world := w }) ∧
      w.views = s.world.views ∧
      List.Forall₂ (fun entry binding => ∃ b, w.bindings.get? binding = some b ∧
        (Binding.start v.document entry.1 entry.2.declaration env).Gains entry.2.operators b)
        resolved bindings := by
  have endures : Endures (σ := σ) env v.catalog v.document 0 (fun _ _ => True) fun w =>
      w.views = s.world.views :=
    ⟨fun same => same, fun {w binding b name operator c} same _ _ _ _ _ _ editable _ =>
      (World.tables_fit binding b editable name operator c w).2.1.trans same⟩
  obtain ⟨bindings, w, ended, views, -, rows⟩ := attachAll_ok endures attachable
    (fun _ _ _ _ => trivial) (s := s) rfl (Nat.zero_le _)
  exact ⟨bindings, w, ended, views, rows⟩

end Run

namespace World

variable {before after : World σ} {v : View} {env : Environment} {binding : Ref .binding}
  {b : Binding} {r : Resolved}

theorem Attached.of_gains {line : String × String} {e : Ref .element}
    (found : before.found? v line.1 = some e)
    (accepted : Run.resolve line.1 line.2 v.catalog env = .ok r)
    (present : after.bindings.get? binding = some b)
    (gains : (Binding.start v.document e r.declaration env).Gains r.operators b) :
    Attached before after v env line binding b := by
  have attachable := Run.attachable_of_resolve accepted
  have slots : b.slots.map (fun slot => (slot.name, slot.operator)) = r.operators := gains.slots
  exact {
    present := present
    live := gains.disposed
    document := gains.document
    element := by
      rw [gains.element]
      exact found
    declaration := by
      rw [gains.declaration]
      exact Run.read_of_resolve accepted
    env := gains.env
    slots := by
      rw [gains.declaration]
      refine Eq.trans ?_ attachable.operators
      rw [← slots, List.map_map]
      rfl
    operators := fun slot listed => by
      refine attachable.catalogued (slot.name, slot.operator) ?_
      rw [← slots]
      exact List.mem_map_of_mem listed }

/-- What was resolved and then given slots is attached, declaration by declaration. -/
theorem attached_of_matches {declarations : List (String × String)}
    {resolved : List (Ref .element × Resolved)} {bindings : List (Ref .binding)}
    (paired : Run.Matches v env before declarations resolved)
    (rows : List.Forall₂ (fun entry binding => ∃ b, after.bindings.get? binding = some b ∧
      (Binding.start v.document entry.1 entry.2.declaration env).Gains entry.2.operators b)
      resolved bindings) :
    List.Forall₂ (fun line binding => ∃ b, Attached before after v env line binding b)
      (declarations.filter fun d => (before.found? v d.1).isSome) bindings := by
  unfold Run.Matches at paired
  generalize declarations.filter _ = those at paired ⊢
  induction paired generalizing bindings with
  | nil =>
      cases rows
      exact .nil
  | cons first _ ih =>
      cases rows with
      | cons here later =>
          obtain ⟨b, present, gains⟩ := here
          exact .cons ⟨b, .of_gains first.1 first.2 present gains⟩ (ih later)

variable {w : World σ} {view : Ref .view}

/-- Releasing the bindings of a view changes nothing about what selectors find. -/
theorem found?_unbindView (selector : String) :
    (w.unbindView view).found? { v with bindings := [] } selector = w.found? v selector := by
  have same := congrFun (pages_unbindView view w) v.document
  simp only [pages] at same
  unfold found?
  rcases gone : w.documents.get? v.document with _ | d
  · rw [gone, Option.map_none, Option.map_eq_none_iff] at same
    rw [same]
  · rw [gone] at same
    obtain ⟨d', present, alike⟩ := Option.map_eq_some_iff.mp same
    rw [present]
    exact Document.query_bare alike _ _

/-- Nor about what is attached. -/
theorem Attached.of_unbound {line : String × String}
    (attached : Attached (w.unbindView view) after { v with bindings := [] } env line binding b) :
    Attached w after v env line binding b :=
  { attached with element := (found?_unbindView line.1).symm.trans attached.element }

theorem finds_unbindView {selector : String} :
    (w.unbindView view).Finds { v with bindings := [] } selector ↔ w.Finds v selector := by
  rw [← isSome_found?_iff, ← isSome_found?_iff, found?_unbindView]

theorem environmentOf_unbindView (model : Ref .model) :
    Run.environmentOf (w.unbindView view) model = Run.environmentOf w model := by
  simp only [Run.environmentOf, models_unbindView]

/-- The work left no trace: the bindings of the view are released, the view holds none,
and the journal has remarks. -/
structure Untouched (view : Ref .view) (v : View) (before after : World σ) : Prop where
  released : ∃ entries : List Entry, (∀ entry ∈ entries, entry.happening.IsRemark) ∧
    after = (before.unbindView view).noting entries ∧
    (v.bindings = [] → after = before.noting entries)
  models : after.models = before.models
  pages : after.pages = before.pages
  unbound : after.views.get? view = some { v with bindings := [] }

theorem untouched_noting (present : w.views.get? view = some v) {entries : List Entry}
    (remarks : ∀ entry ∈ entries, entry.happening.IsRemark) :
    Untouched view v w ((w.unbindView view).noting entries) where
  released := ⟨entries, remarks, rfl, fun unbound => by rw [unbindView_of_unbound present unbound]⟩
  models := models_unbindView view w
  pages := pages_unbindView view w
  unbound := view_unbindView present

end World

namespace Run

variable {s : State σ} {view : Ref .view} {v : View}

theorem result_bindView_nil (present : s.world.views.get? view = some v)
    (none : v.declarations = []) : (bindView view).result s = (.ok (), s.alter (.unbindView view)) := by
  rw [bindView, result_alter_bind, result_world_bind]
  simp only [State.alter_world, World.view_unbindView present, none]
  rfl

def bindDeclarations (view : Ref .view) (v : View) (env : Environment) : Run σ Unit := do
  let resolved ← resolveAll v env v.declarations
  let bindings ← attachAll v env resolved
  alter (.report (.viewBound v.declarations.length bindings.length))
  alter fun w => { w with views := w.views.update view fun v => { v with bindings := bindings } }

/-- A view is bound after its former bindings were released. -/
theorem result_bindView (present : s.world.views.get? view = some v) (some_ : v.declarations ≠ []) :
    (bindView view).result s =
      (bindDeclarations view { v with bindings := [] } (environmentOf s.world v.model)).result
        (s.alter (.unbindView view)) := by
  have listed : v.declarations.isEmpty = false := by simpa using some_
  rw [bindView, result_alter_bind, result_world_bind]
  simp only [State.alter_world, World.view_unbindView present, World.environmentOf_unbindView, listed]
  rfl

/-- Binding declarations ends well, having resolved and attached them all, or fails with
remarks. -/
theorem bindDeclarations_ends (view : Ref .view) (v : View) (env : Environment) (s : State σ) :
    ((∃ bindings t, (bindDeclarations view v env).result s = (.ok (), t) ∧
        t.world.views.get? view =
          (s.world.views.get? view).map ({ · with bindings := bindings }) ∧
        List.Forall₂ (fun line binding => ∃ b, s.world.Attached t.world v env line binding b)
          (v.declarations.filter fun d => (s.world.found? v d.1).isSome) bindings) ∧
      ∀ d ∈ v.declarations, s.world.Finds v d.1 → ∃ r, resolve d.1 d.2 v.catalog env = .ok r) ∨
    ∃ (entries : List Entry) (error : Error), (∀ entry ∈ entries, entry.happening.IsRemark) ∧
      (bindDeclarations view v env).result s =
        (.error (.failed error), s.alter (.noting entries)) ∧
      ∃ d ∈ v.declarations, s.world.Finds v d.1 ∧ ¬ ∃ r, resolve d.1 d.2 v.catalog env = .ok r := by
  cases resolveAll_ends v env v.declarations s with
  | well entries remarks resolved ended paired =>
      obtain ⟨bindings, w, attached, views, rows⟩ :=
        attachAll_of_attachable paired.attachable (s.alter (.noting entries))
      have whole : (bindDeclarations view v env).result s = _ := result_bind_ok ended
      rw [result_bind_ok attached, result_alter_bind, result_alter] at whole
      refine Or.inl ⟨⟨bindings, _, whole, ?_, World.attached_of_matches paired rows⟩,
        fun d listed finds => paired.all listed finds⟩
      show (w.views.update view _).get? view = _
      rw [Table.get?_update_self, views]
      rfl
  | badly entries remarks error ended refused =>
      refine Or.inr ⟨entries, error, remarks, ?_, refused⟩
      rw [bindDeclarations, result_bind_error ended]

/-- Binding a view ends well, with a binding for each declaration whose selector finds an
element, or it fails and touches nothing. -/
theorem bindView_ends (present : s.world.views.get? view = some v) :
    ((∃ bindings t, (bindView view).result s = (.ok (), t) ∧
        t.world.views.get? view = some { v with bindings := bindings } ∧
        List.Forall₂ (fun line binding => ∃ b,
            s.world.Attached t.world v (environmentOf s.world v.model) line binding b)
          (v.declarations.filter fun d => (s.world.found? v d.1).isSome) bindings) ∧
      ∀ d ∈ v.declarations, s.world.Finds v d.1 → s.world.Resolves v d.1 d.2) ∨
    ∃ error t, (bindView view).result s = (.error (.failed error), t) ∧
      World.Untouched view v s.world t.world ∧ t.callbacks = s.callbacks ∧ t.client = s.client ∧
      ∃ d ∈ v.declarations, s.world.Finds v d.1 ∧ ¬ s.world.Resolves v d.1 d.2 := by
  have unbound := World.view_unbindView present
  by_cases listed : v.declarations = []
  · rw [result_bindView_nil present listed]
    refine Or.inl ⟨⟨[], _, rfl, unbound, ?_⟩, ?_⟩
    · rw [listed]
      exact .nil
    · rw [listed]
      exact nofun
  · rw [result_bindView present listed]
    rcases bindDeclarations_ends view { v with bindings := [] } (environmentOf s.world v.model)
      (s.alter (.unbindView view)) with
      ⟨⟨bindings, t, ended, bound, rows⟩, all⟩ | ⟨entries, error, remarks, ended, d, among, finds, refused⟩
    · refine Or.inl ⟨⟨bindings, t, ended, ?_, ?_⟩, fun d among finds =>
        World.resolve_ok_iff.mp (all d among (World.finds_unbindView.mpr finds))⟩
      · rw [bound, State.alter_world, unbound]
        rfl
      · simp only [State.alter_world, World.found?_unbindView] at rows
        exact rows.imp fun _ _ ⟨b, attached⟩ => ⟨b, attached.of_unbound⟩
    · exact Or.inr ⟨error, _, ended, World.untouched_noting present remarks, rfl, rfl, d, among,
        World.finds_unbindView.mp finds, fun resolves => refused (World.resolve_ok_iff.mpr resolves)⟩

end Run

/-- A view is bound when every declaration whose selector finds an element can be
resolved, and only then, and it holds a binding for each of these.  Otherwise nothing is
touched, and the view is not bound.  Attaching what was resolved never fails. -/
theorem bind_all_or_nothing {s : State σ} {view : Ref .view} {v : View}
    (present : s.world.views.get? view = some v) :
    (((Run.bindView view).result s).1 = .ok () ↔
        ∀ d ∈ v.declarations, s.world.Finds v d.1 → s.world.Resolves v d.1 d.2) ∧
      (∀ t, (Run.bindView view).result s = (.ok (), t) → ∃ bindings,
        t.world.views.get? view = some { v with bindings := bindings } ∧
        List.Forall₂ (fun line binding => ∃ b,
            s.world.Attached t.world v (Run.environmentOf s.world v.model) line binding b)
          (v.declarations.filter fun d => (s.world.found? v d.1).isSome) bindings) ∧
      (∀ halt t, (Run.bindView view).result s = (.error halt, t) →
        (∃ error, halt = .failed error) ∧ World.Untouched view v s.world t.world ∧
          t.callbacks = s.callbacks ∧ t.client = s.client) ∧
      ∀ (resolved : List (Ref .element × Resolved)) (r r' u : State σ),
        (Run.resolveAll v (Run.environmentOf s.world v.model) v.declarations).result r =
          (.ok resolved, r') →
        ∃ bindings t, (Run.attachAll v (Run.environmentOf s.world v.model) resolved).result u =
          (.ok bindings, t) := by
  have ends := Run.bindView_ends present
  refine ⟨?_, ?_, ?_, ?_⟩
  · rcases ends with ⟨⟨bindings, t, ended, -⟩, all⟩ |
      ⟨error, t, ended, -, -, -, d, among, finds, refused⟩
    · rw [ended]
      exact iff_of_true rfl all
    · rw [ended]
      exact iff_of_false nofun fun all => refused (all d among finds)
  · intro t ended
    rw [ended] at ends
    rcases ends with ⟨⟨bindings, t, ⟨⟩, bound, rows⟩, -⟩ | ⟨error, t, ⟨⟩, -⟩
    exact ⟨bindings, bound, rows⟩
  · intro halt t ended
    rw [ended] at ends
    rcases ends with ⟨⟨bindings, t, ⟨⟩, -⟩, -⟩ | ⟨error, t, ⟨⟩, untouched, callbacks, client, -⟩
    exact ⟨⟨error, rfl⟩, untouched, callbacks, client⟩
  · intro resolved r r' u ended
    cases Run.resolveAll_ends v (Run.environmentOf s.world v.model) v.declarations r with
    | well entries remarks resolved' ended' paired =>
        rw [ended] at ended'
        cases ended'
        obtain ⟨bindings, w, attached, -⟩ := Run.attachAll_of_attachable paired.attachable u
        exact ⟨bindings, _, attached⟩
    | badly entries remarks error ended' refused =>
        rw [ended] at ended'
        cases ended'

/-! ## A view with an operator that nobody knows -/

namespace Sample

def glow : View :=
  .ofDeclarations ⟨0⟩ Document.root ⟨0⟩ [("p", "text: title, glow: title")]

def glowing : Program Unit :=
  .call .openDocument fun (document : Ref .document) =>
    .call (.edit document (.create "p")) fun _ =>
      .call (.edit document (.appendChild Document.root ⟨1⟩)) fun _ =>
        .call (.openModel [("title", .text "Hello")]) fun _ => .call (.openView glow) fun _ => .done

def unlit : State Unit :=
  ((Run.run 0 glowing).result ⟨.empty, [], ()⟩).2

end Sample

open Sample in
/-- The unknown operator comes second, and yet nothing is touched. -/
theorem bind_all_or_nothing_glow : unlit.world.views.get? ⟨0⟩ = some glow ∧
    ∃ halt t, (Run.bindView ⟨0⟩).result unlit = (.error halt, t) ∧
      World.Untouched ⟨0⟩ glow unlit.world t.world := by
  have present : unlit.world.views.get? ⟨0⟩ = some glow := rfl
  have fails : ((Run.bindView ⟨0⟩).result unlit).1.isOk = false := by decide +kernel
  refine ⟨present, ?_⟩
  rcases ended : (Run.bindView ⟨0⟩).result unlit with ⟨halt | _, t⟩
  · exact ⟨halt, t, rfl, ((bind_all_or_nothing present).2.2.1 halt t ended).2.1⟩
  · rw [ended] at fails
    cases fails

end LiveBinding
