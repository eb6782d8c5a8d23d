/-
# LiveBinding.Proofs.Agreement -- validation and binding agree about a configuration

Validation looks at what is written down: the names of attributes and of computed
entries.  Binding looks at a model: what it stores and what it computes.  Once the model
of a configuration is built these are the same names (`knows_iff_known`), so the two
accept the same declarations, but for operators, at which validation does not look
(`validate_agrees`).

Building fails for a template that cannot be read, or for templates that lead back to
themselves, and for nothing else: templates can always be rendered, and announcing
first values comes to an end.
-/
import LiveBinding.Proofs.AllOrNothing
import LiveBinding.Proofs.AnyOrder
import LiveBinding.Proofs.Configuration.Validate

namespace LiveBinding

set_option autoImplicit false

variable {σ : Type}

/-! ## How resolving fails -/

theorem Resolved.lookup_error {selector : String} {catalog : Catalog} {names : List String}
    {error : Error} (failed : lookup selector catalog names = .error error) :
    ∃ operator, error = .unknownOperator selector operator := by
  induction names with
  | nil => cases failed
  | cons name rest ih =>
      rw [lookup] at failed
      split at failed
      · rcases others : lookup selector catalog rest with e | operators
        · rw [others] at failed
          cases failed
          exact ih others
        · rw [others] at failed
          cases failed
      · cases failed
        exact ⟨name, rfl⟩

/-- A declaration that can be read and uses defined names can only have an operator that
is not known. -/
theorem Run.resolve_error {selector text : String} {catalog : Catalog} {env : Environment}
    {d : Declaration} {error : Error} (read : Declaration.read selector text = .ok d)
    (defined : ∀ name ∈ d.names, Index.contains name.1 env = true)
    (failed : resolve selector text catalog env = .error error) :
    ∃ other operator, error = .unknownOperator other operator := by
  rw [resolve, read] at failed
  dsimp only at failed
  rw [Declaration.resolve] at failed
  rcases found : Resolved.lookup d.selector catalog d.operators with e | operators
  · rw [found] at failed
    cases failed
    exact ⟨_, Resolved.lookup_error found⟩
  · rw [found] at failed
    have checked := Declaration.checkNames_ok_iff.mpr defined
    simp only [bind, Except.bind, checked] at failed
    cases failed

namespace Run

variable {s t : State σ} {v : View} {view : Ref .view} {error : Error}

/-- Resolving declarations fails as one of them does. -/
theorem resolveAll_error {env : Environment} {declarations : List (String × String)}
    (failed : (resolveAll v env declarations).result s = (.error (.failed error), t)) :
    ∃ d ∈ declarations, resolve d.1 d.2 v.catalog env = .error error := by
  induction declarations generalizing s with
  | nil => cases failed
  | cons declaration rest ih =>
      have later : ∀ {s : State σ}, (resolveAll v env rest).result s = (.error (.failed error), t) →
          ∃ d ∈ declaration :: rest, resolve d.1 d.2 v.catalog env = .error error := by
        intro s failed
        obtain ⟨d, among, same⟩ := ih failed
        exact ⟨d, List.mem_cons_of_mem _ among, same⟩
      rw [resolveAll, result_world_bind] at failed
      split at failed
      · rw [result_alter_bind] at failed
        exact later failed
      · rcases resolved : resolve declaration.1 declaration.2 v.catalog env with e | r
        · rw [resolved] at failed
          cases failed
          exact ⟨declaration, List.mem_cons_self, resolved⟩
        · rw [resolved] at failed
          rcases bind_error failed with never | ⟨_, r', accepted, failed⟩
          · cases never
          · rcases bind_error failed with failed | ⟨_, _, _, never⟩
            · exact later failed
            · cases never

/-- Binding a view fails as one of its declarations does. -/
theorem bindView_error {halt : Halt} (present : s.world.views.get? view = some v)
    (failed : (bindView view).result s = (.error halt, t)) :
    ∃ d ∈ v.declarations, ∃ error, halt = .failed error ∧
      resolve d.1 d.2 v.catalog (environmentOf s.world v.model) = .error error := by
  by_cases none : v.declarations = []
  · rw [result_bindView_nil present none] at failed
    cases failed
  · rw [result_bindView present none] at failed
    rcases bind_error failed with failed | ⟨resolved, r, accepted, failed⟩
    · cases resolveAll_ends { v with bindings := [] } (environmentOf s.world v.model) v.declarations
        (s.alter (.unbindView view)) with
      | well entries remarks resolved ended => rw [failed] at ended; cases ended
      | badly entries remarks error ended =>
          rw [failed] at ended
          cases ended
          obtain ⟨d, among, refused⟩ := resolveAll_error failed
          exact ⟨d, among, error, rfl, refused⟩
    · -- what was resolved is attached
      cases resolveAll_ends { v with bindings := [] } (environmentOf s.world v.model) v.declarations
        (s.alter (.unbindView view)) with
      | badly entries remarks error ended => rw [accepted] at ended; cases ended
      | well entries remarks resolved' ended paired =>
          rw [accepted] at ended
          cases ended
          obtain ⟨bindings, w, attached, -⟩ := attachAll_of_attachable paired.attachable
            ((s.alter (.unbindView view)).alter (.noting entries))
          rw [result_bind_ok attached] at failed
          cases failed

end Run

/-! ## What a built model knows -/

/-- A planned model knows the attributes it was made with and the planned names. -/
theorem World.knows_iff_known {w : World σ} {model : Ref .model} {m : Model σ}
    {attributes : Attributes} {plans : List Plan} (present : w.models.get? model = some m)
    (planned : m.Planned attributes plans) {name : String} :
    w.Knows model name ↔ name ∈ Fields.keys attributes ∨ name ∈ plans.map Plan.name := by
  have known : w.Knows model name ↔
      Fields.contains name m.store = true ∨ m.isComputed name = true := by
    simp [Knows, present]
  rw [known, ← Fields.contains_iff_mem_keys]
  by_cases named : name ∈ plans.map Plan.name
  · refine iff_of_true (Or.inr ?_) (Or.inr named)
    rw [← planned.names] at named
    obtain ⟨p, listed, same⟩ := List.mem_map.mp named
    rw [Model.isComputed, Model.property?, List.find?_isSome]
    exact ⟨p, listed, by simpa using same⟩
  · have uncomputed : m.isComputed name = false := by
      rw [Model.isComputed, planned.property?_eq_none named]
      rfl
    simp [Fields.contains, planned.plain name named, uncomputed, named]

/-! ## Building -/

namespace Run

variable {s : State σ} {model : Ref .model} {hub : Ref .hub} {plans : List Plan}

/-- Plans that lead back to themselves are bound to a new model, and refused. -/
theorem bindComputed_refuses (fire : Fire σ) (attributes : Attributes) (cyclic : ¬ Acyclic plans)
    (present : s.world.models.get? model = some ⟨hub, attributes, []⟩)
    (silent : s.world.hubs.get? hub = some .empty) (held : .model model ∈ s.world.held) :
    ∃ cycle t, (bindComputed fire model
        (plans.map fun plan => (plan.name, plan.definition))).result s =
      (.error (.failed (.cyclicDependency cycle)), t) := by
  obtain ⟨u, -, privateThen, -, -, comes⟩ :=
    bindComputed_builds plans attributes present silent held
  obtain ⟨cycle, t, refused⟩ := refuseCycle_refuses privateThen cyclic
  refine ⟨cycle, t.alter (.release (.model model)), ?_⟩
  rw [comes, result_lastly, concludeBinding, result_bind_error refused]

end Run

namespace Configuration

variable {c : Configuration} {s : State σ} {depth : Nat}

theorem definitions_error {entries : Fields ComputedEntry}
    (unreadable : ¬ ∀ entry ∈ entries, (Template.read entry.2.template).isOk = true) :
    ∃ error, definitions (σ := σ) entries = .error error := by
  induction entries with
  | nil => exact absurd nofun unreadable
  | cons entry rest ih =>
      obtain ⟨name, entry⟩ := entry
      rcases first : definition (σ := σ) name entry with error | defined
      · exact ⟨error, by rw [definitions, first]; rfl⟩
      · have readable : (Template.read entry.template).isOk = true := by
          rw [definition] at first
          split at first
          · rename_i template reads
            rw [reads]
            rfl
          · cases first
        obtain ⟨error, failed⟩ := ih fun all => unreadable (List.forall_mem_cons.mpr ⟨readable, all⟩)
        exact ⟨error, by rw [definitions, first, failed]; rfl⟩

/-- Where the plans lead back to themselves no model can be opened with them. -/
theorem openModel_refuses (depth : Nat) (s : State σ) (attributes : Attributes)
    {plans : List Plan} (cyclic : ¬ Acyclic plans) :
    ∃ cycle t, Script.Ends (Run.dispatch depth) (openModel attributes
      (plans.map fun plan => (plan.name, plan.definition))) s (.error (.cyclicDependency cycle)) t := by
  obtain ⟨cycle, t, refused⟩ := Run.bindComputed_refuses (Run.dispatch depth) attributes
    (s := s.alter fun w => (w.openModel attributes).2) cyclic
    (Table.get?_insert_fresh s.world.models _) (Table.get?_insert_fresh s.world.hubs _)
    List.mem_cons_self
  have released : Script.Ends (Run.dispatch depth) (Script.act (.release (.model s.world.models.fresh)))
      t (.ok ()) (t.alter (.release (.model s.world.models.fresh))) :=
    Script.ends_act _ rfl
  exact ⟨cycle, _, (Script.ends_openModel attributes).bind
    ((Script.ends_bindComputed_error refused).attempt.bind (released.bind (Script.ends_fail _)))⟩

/-- With templates that can be read, building a model is opening it with the plans. -/
theorem buildModel_of_parses {ended : Except Error (Ref .model)} {t : State σ} (parses : c.Parses)
    (opened : Script.Ends (Run.dispatch depth) (openModel c.attributes
      (c.plans.map fun plan => (plan.name, plan.definition))) s ended t) :
    Script.Ends (Run.dispatch depth) c.buildModel s ended t := by
  have defined : Script.Ends (Run.dispatch depth) (Script.ofExcept (definitions c.computed)) s
      (.ok (c.plans.map fun plan => (plan.name, plan.definition (σ := σ)))) s := by
    rw [definitions_of_plans parses]
    exact Script.ends_ofExcept _
  exact defined.bind opened

/-- Building a model comes to an end.  Where templates can be read it fails for a cycle
and for nothing else, and what is built is planned. -/
theorem buildModel_ends (distinct : (Fields.keys c.computed).Nodup) (sound : s.world.Sound)
    (deep : c.computed.length + 2 ≤ depth) :
    ∃ ended t, Script.Ends (Run.dispatch depth) c.buildModel s ended t ∧
      (c.Parses → ∀ error, ended = .error error → ∃ cycle, error = .cyclicDependency cycle) ∧
      ∀ model, ended = .ok model →
        ∃ m, t.world.models.get? model = some m ∧ m.Planned c.attributes c.plans := by
  by_cases parses : c.Parses
  · by_cases acyclic : Acyclic c.plans
    · have distinctPlans : (c.plans.map Plan.name).Nodup := by
        rw [plans, List.map_map]
        exact distinct
      have deepPlans : c.plans.length + 2 ≤ depth := by
        rw [plans, List.length_map]
        exact deep
      obtain ⟨model, t, m, opened, present, planned, -⟩ :=
        openModel_ends c.attributes distinctPlans acyclic deepPlans sound
      refine ⟨.ok model, t, buildModel_of_parses parses opened,
        fun _ _ same => (by cases same), ?_⟩
      rintro _ ⟨⟩
      exact ⟨m, present, planned⟩
    · obtain ⟨cycle, t, refused⟩ := openModel_refuses depth s c.attributes acyclic
      refine ⟨.error (.cyclicDependency cycle), t, buildModel_of_parses parses refused, ?_,
        fun _ same => by cases same⟩
      rintro - _ ⟨⟩
      exact ⟨cycle, rfl⟩
  · obtain ⟨error, failed⟩ := definitions_error (σ := σ) parses
    have undefined : Script.Ends (Run.dispatch depth) (Script.ofExcept (definitions c.computed)) s
        (.error error : Except Error (List (String × Definition σ))) s := by
      rw [failed]
      exact Script.ends_ofExcept _
    exact ⟨.error error, s, undefined.bind_error, fun readable => absurd readable parses,
      fun _ same => by cases same⟩

/-- The view of a configuration, not bound yet. -/
def view (c : Configuration) (document : Ref .document) (model : Ref .model) : View :=
  { View.ofDeclarations document Document.root model c.bindings with editableTags := c.editableTags }

theorem declarations_view (distinct : (Fields.keys c.bindings).Nodup) (document : Ref .document)
    (model : Ref .model) : (c.view document model).declarations = c.bindings :=
  Fields.ofEntries_of_distinct distinct

/-- Building a view comes to an end, as building its model does, and the view is that of
the configuration. -/
theorem buildView_ends (document : Ref .document) (distinct : (Fields.keys c.computed).Nodup)
    (sound : s.world.Sound) (deep : c.computed.length + 2 ≤ depth) :
    ∃ ended t, Script.Ends (Run.dispatch depth) (c.buildView document) s ended t ∧
      (c.Parses → ∀ error, ended = .error error → ∃ cycle, error = .cyclicDependency cycle) ∧
      ∀ view model, ended = .ok (view, model) →
        t.world.views.get? view = some (c.view document model) ∧
        ∃ m, t.world.models.get? model = some m ∧ m.Planned c.attributes c.plans := by
  have mounted : Script.Ends (Run.dispatch depth)
      (Script.act (.mount document Document.root c.elements)) s (.ok ())
      (s.alter (.editDocument document (Fixture.mountAll Document.root c.elements))) :=
    Script.ends_act _ rfl
  obtain ⟨ended, t, built, fails, plans⟩ := buildModel_ends distinct
    (s := s.alter (.editDocument document (Fixture.mountAll Document.root c.elements)))
    ((World.apart_editDocument _ _ _).sound sound) deep
  cases ended with
  | error error =>
      refine ⟨.error error, t, mounted.bind built.bind_error, fun parses e is => ?_, nofun⟩
      cases is
      exact fails parses error rfl
  | ok model =>
      refine ⟨.ok (t.world.views.fresh, model), t.alter fun w => (w.openView (c.view document model)).2,
        ?_, fun _ _ => nofun, ?_⟩
      · exact mounted.bind (built.bind ((Script.ends_openView _).bind (Script.ends_done _)))
      · rintro _ _ ⟨⟩
        exact ⟨Table.get?_insert_fresh _ _, plans model rfl⟩

end Configuration

/-! ## The two agree -/

/-- A built model knows the names that validation knows. -/
theorem Configuration.knows_iff_mem_knownNames {c : Configuration} {w : World σ}
    {model : Ref .model} {m : Model σ} (present : w.models.get? model = some m)
    (planned : m.Planned c.attributes c.plans) {name : String} :
    w.Knows model name ↔ name ∈ c.knownNames := by
  have names : c.plans.map Plan.name = Fields.keys c.computed := by
    rw [plans, List.map_map]
    rfl
  rw [World.knows_iff_known present planned, names, knownNames, List.mem_append]

/-- A configuration that validation accepts can be built, but for cycles, and bound, but
for operators.  Where validation blames a declaration whose selector finds an element,
the view that was built cannot be bound. -/
theorem validate_agrees {c : Configuration} (computed : (Fields.keys c.computed).Nodup)
    (bindings : (Fields.keys c.bindings).Nodup) {s : State σ} (reachable : Reachable s)
    (document : Ref .document) {depth : Nat} (deep : c.computed.length + 2 ≤ depth) :
    ∃ ended t, Script.Ends (Run.dispatch depth) (c.buildView document) s ended t ∧
      (c.validate = .ok c →
        (∀ error, ended = .error error → ∃ cycle, error = .cyclicDependency cycle) ∧
        ∀ view model, ended = .ok (view, model) → ((Run.bindView view).result t).1 = .ok () ∨
          ∃ selector operator, ((Run.bindView view).result t).1 =
            .error (.failed (.unknownOperator selector operator))) ∧
      ∀ view model, ended = .ok (view, model) →
        ∀ selector, c.Blames selector → t.world.Finds (c.view document model) selector →
          ∃ error, ((Run.bindView view).result t).1 = .error (.failed error) := by
  obtain ⟨ended, t, built, fails, view_⟩ :=
    c.buildView_ends document computed (sound_of_reachable reachable) deep
  refine ⟨ended, t, built, fun accepted => ?_, fun view model is selector blames finds => ?_⟩
  · obtain ⟨parses, readable⟩ := Configuration.accepted_of_validate accepted
    refine ⟨fails parses, fun view model is => ?_⟩
    obtain ⟨present, m, row, planned⟩ := view_ view model is
    rcases bound : (Run.bindView view).result t with ⟨halt | ⟨⟩, u⟩
    · obtain ⟨declaration, listed, error, rfl, refused⟩ := Run.bindView_error present bound
      rw [Configuration.declarations_view bindings] at listed
      obtain ⟨d, read, known⟩ := readable declaration listed
      obtain ⟨selector, operator, rfl⟩ := Run.resolve_error read (fun name among =>
        World.contains_environmentOf.mpr
          ((Configuration.knows_iff_mem_knownNames row planned).mpr (known name among))) refused
      exact Or.inr ⟨selector, operator, rfl⟩
    · exact Or.inl rfl
  · obtain ⟨present, m, row, planned⟩ := view_ view model is
    obtain ⟨text, listed, wrong⟩ := Configuration.binding_of_blames blames
    rw [← Configuration.declarations_view bindings document model] at listed
    have unresolved : ¬ t.world.Resolves (c.view document model) selector text := by
      rintro ⟨d, read, -, names⟩
      rcases wrong with ⟨e, unreadable⟩ | ⟨d', read', used, among, unknown⟩
      · rw [unreadable] at read
        cases read
      · rw [read'] at read
        cases read
        exact unknown ((Configuration.knows_iff_mem_knownNames row planned).mp (names used among))
    rcases Run.bindView_ends present with ⟨-, all⟩ | ⟨error, t', ended', -⟩
    · exact absurd (all _ listed finds) unresolved
    · exact ⟨error, by rw [ended']⟩

/-! ## A badge -/

namespace Sample

/-- A greeting, and a paragraph with this declaration. -/
def badge (text : String) : Configuration :=
  { Configuration.empty with
    attributes := [("name", .text "Ada")]
    computed := [("greeting", ⟨"Hello \x7bname\x7d", false⟩)]
    elements := [.element "p" none [] none none []]
    bindings := [("p", text)] }

/-- Says by how it ends whether a view was built and the document has a paragraph. -/
def checkParagraph : Except Error (Ref .view × Ref .model) → Program Unit
  | .ok _ => .look fun world _ =>
      match (world.documents.get? ⟨0⟩).bind (·.query Document.root "p") with
      | some _ => .done
      | none => .fail (.noGetter "p")
  | .error error => .fail error

def desk : State Unit :=
  ((Run.run 0 (.call .openDocument fun _ => .done)).result ⟨.empty, [], ()⟩).2

theorem finds_badge {text : String} {ended : Except Error (Ref .view × Ref .model)} {t : State Unit}
    (built : Script.Ends (Run.dispatch 3) ((badge text).buildView ⟨0⟩) desk ended t)
    (well : ((Run.exec (Run.dispatch 3) (((badge text).buildView ⟨0⟩).run checkParagraph)).result
      desk).1.isOk = true) :
    ∃ view model, ended = .ok (view, model) ∧
      t.world.Finds ((badge text).view ⟨0⟩ model) "p" := by
  rw [built checkParagraph] at well
  match ended with
  | .error error => cases well
  | .ok (view, model) =>
      refine ⟨view, model, rfl, ?_⟩
      rw [checkParagraph, Run.exec, Run.result_bind_ok (Run.result_get t)] at well
      split at well
      · rename_i element found
        obtain ⟨d, present, finds⟩ := Option.bind_eq_some_iff.mp found
        exact ⟨d, element, present, finds⟩
      · cases well

end Sample

open Sample in
/-- The badge is accepted and bound when it shows the greeting.  When it shows a title,
which nothing defines, it is built all the same, and cannot be bound. -/
theorem validate_agrees_badge :
    (∃ view model t, (badge "text: greeting").validate = .ok (badge "text: greeting") ∧
      Script.Ends (Run.dispatch 3) ((badge "text: greeting").buildView ⟨0⟩) desk
        (.ok (view, model)) t ∧
      (((Run.bindView view).result t).1 = .ok () ∨ ∃ selector operator,
        ((Run.bindView view).result t).1 = .error (.failed (.unknownOperator selector operator)))) ∧
    ∃ view model t, (badge "text: title").Blames "p" ∧
      Script.Ends (Run.dispatch 3) ((badge "text: title").buildView ⟨0⟩) desk (.ok (view, model)) t ∧
      t.world.Finds ((badge "text: title").view ⟨0⟩ model) "p" ∧
      ∃ error, ((Run.bindView view).result t).1 = .error (.failed error) := by
  have reachable : Reachable desk :=
    ⟨(), 0, .call .openDocument fun _ => .done, .ok (), nofun, Run.result_of_isOk (by decide +kernel)⟩
  constructor
  · have accepted : (badge "text: greeting").validate = .ok (badge "text: greeting") := by
      rw [Configuration.validate, if_pos (by decide +kernel)]
    obtain ⟨ended, t, built, agrees, -⟩ := validate_agrees (c := badge "text: greeting")
      (by decide +kernel) (by decide +kernel) reachable ⟨0⟩ (show 1 + 2 ≤ 3 by decide)
    obtain ⟨view, model, rfl, -⟩ := finds_badge built (by decide +kernel)
    exact ⟨view, model, t, accepted, built, (agrees accepted).2 view model rfl⟩
  · have refused : (badge "text: title").Blames "p" := by
      refine ⟨(badge "text: title").problems, ?_, Or.inr ⟨"title", by decide +kernel⟩⟩
      rw [Configuration.validate, if_neg (by decide +kernel)]
    obtain ⟨ended, t, built, -, agrees⟩ := validate_agrees (c := badge "text: title")
      (by decide +kernel) (by decide +kernel) reachable ⟨0⟩ (show 1 + 2 ≤ 3 by decide)
    obtain ⟨view, model, rfl, finds⟩ := finds_badge built (by decide +kernel)
    exact ⟨view, model, t, refused, built, finds, agrees view model rfl "p" refused finds⟩

end LiveBinding
