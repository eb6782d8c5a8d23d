/-
# LiveBinding.Proofs.Run.Wiring -- what attached bindings depend on

Whoever applies an operator for the first time subscribes its slot to all that its
expression reads.  So a binding that was attached depends on just what its operators read
at that time, each slot for itself (`Binding.IsCompiled`), and all of its slots can be
compiled anew (`Binding.Compiles`), whether it was attached by a client or for a view.
-/
import LiveBinding.Proofs.Run.Attach
import LiveBinding.Proofs.Run.Lodge
import LiveBinding.Proofs.Run.Step
import LiveBinding.Proofs.World.Owed

namespace LiveBinding

set_option autoImplicit false

variable {σ : Type}

/-! ## Dependencies -/

namespace Declaration

/-- What operators depend on, the first of them in the slot of that number: each dependency
with the slot of its operator. -/
def dependencies (d : Declaration) (env : Environment) (sight : Sight)
    (operators : List (String × Operator)) (first : Nat) : List (Nat × Dependency) :=
  (operators.zipIdx first).flatMap fun entry =>
    match d.compileOperator entry.1.1 env sight with
    | .ok c => (c.dependencies sight).map fun dependency => (entry.2, dependency)
    | .error _ => []

theorem dependencies_concat {d : Declaration} {env : Environment} {sight : Sight} {name : String}
    {c : Compilation} (operators : List (String × Operator)) (operator : Operator) (first : Nat)
    (compiled : d.compileOperator name env sight = .ok c) :
    d.dependencies env sight (operators ++ [(name, operator)]) first =
      d.dependencies env sight operators first ++
        (c.dependencies sight).map fun dependency => (first + operators.length, dependency) := by
  rw [dependencies, List.zipIdx_append, List.flatMap_append, ← dependencies, List.zipIdx_singleton,
    List.flatMap_singleton, compiled]

end Declaration

namespace Binding

variable {b b' : Binding} {sight : Sight}

def operators (b : Binding) : List (String × Operator) :=
  b.slots.map fun slot => (slot.name, slot.operator)

/-- Each slot depends on what its operator reads where models show this, and on nothing
else. -/
def IsCompiled (sight : Sight) (b : Binding) : Prop :=
  b.dependencies = b.declaration.dependencies b.env sight b.operators 0

theorem dependencies_of_wiring (same : b'.wiring = b.wiring) : b'.dependencies = b.dependencies := by
  have shown : ∀ b : Binding, b.wiring.dependencies = b.dependencies := fun b => by
    rw [dependencies, enlisted_wiring]
    rfl
  rw [← shown, same, shown]

theorem operators_of_wiring (same : b'.wiring = b.wiring) : b'.operators = b.operators := by
  have shown : ∀ b : Binding, b.wiring.operators = b.operators := fun _ => List.map_map
  rw [← shown, same, shown]

theorem IsCompiled.of_wiring (compiled : b.IsCompiled sight) (same : b'.wiring = b.wiring) :
    b'.IsCompiled sight := by
  rw [IsCompiled, dependencies_of_wiring same, operators_of_wiring same,
    show b'.declaration = b.declaration from (congrArg Binding.declaration same :),
    show b'.env = b.env from (congrArg Binding.env same :)]
  exact compiled

def Compiles (b : Binding) : Prop :=
  ∀ slot ∈ b.slots, ∀ sight, ∃ c, b.declaration.compileOperator slot.name b.env sight = .ok c

theorem Compiles.of_wiring (compiles : b.Compiles) (same : b'.wiring = b.wiring) :
    b'.Compiles := by
  intro slot listed sight
  have named : (slot.name, slot.operator) ∈ b.operators := by
    rw [← operators_of_wiring same]
    exact List.mem_map_of_mem listed
  obtain ⟨old, was, is⟩ := List.mem_map.mp named
  have name : old.name = slot.name := congrArg Prod.fst is
  rw [show b'.declaration = b.declaration from (congrArg Binding.declaration same :),
    show b'.env = b.env from (congrArg Binding.env same :), ← name]
  exact compiles old was sight

/-- One more slot whose expression was compiled. -/
theorem Compiles.append {sight : Sight} {c : Compilation} (compiles : b.Compiles) (slot : Slot)
    (compiled : b.declaration.compileOperator slot.name b.env sight = .ok c)
    (declaration : b'.declaration = b.declaration) (env : b'.env = b.env)
    (same : b'.slots = b.slots ++ [slot]) : b'.Compiles := by
  intro other listed later
  rw [declaration, env]
  rw [same] at listed
  rcases List.mem_append.mp listed with old | new
  · exact compiles other old later
  · rw [List.mem_singleton.mp new]
    exact Declaration.compileOperator_again compiled later

/-- The binding depends on what its operators read where models show this, and they can be
compiled anew at any time. -/
structure IsFitted (sight : Sight) (b : Binding) : Prop where
  compiled : b.IsCompiled sight
  compiles : b.Compiles

end Binding

/-! ## Attaching -/

namespace World

variable {w : World σ} {binding : Ref .binding} {b : Binding} {name : String} {c : Compilation}

/-- One more slot that depends on what its operator reads, and can be compiled anew. -/
theorem fitted_fit (announced : w.Announced) (present : w.bindings.get? binding = some b)
    (live : b.disposed = false) (wired : b.IsWired) (fitted : b.IsFitted w.sight)
    (here : b.declaration.compileOperator name b.env w.sight = .ok c) (editable : Bool)
    (operator : Operator) :
    ∃ b', (w.fit binding b editable name operator c).bindings.get? binding = some b' ∧
      b'.disposed = false ∧ b'.IsWired ∧ b'.IsFitted w.sight := by
  obtain ⟨subs, ids, row, enrolled⟩ :=
    enrolled_fit editable name operator c present (announced.dependencies c)
  refine ⟨_, row, live, wired.append live _ ids enrolled.events, ?_, ?_⟩
  · have more := Declaration.dependencies_concat b.operators operator 0 here
    rw [Nat.zero_add, ← fitted.compiled, Binding.operators, List.length_map] at more
    rw [Binding.IsCompiled, Binding.dependencies_append wired live _ ids enrolled.events,
      enrolled.named, ← more, Binding.operators, List.map_append]
    rfl
  · exact fitted.compiles.append ⟨name, operator, c.compiled, _, _, _⟩ here rfl rfl rfl

end World

namespace Run

variable {s t : State σ} {binding : Ref .binding} {b : Binding} {editable : Bool}

/-- Whatever operators are applied, each slot depends on what its operator reads, and can be
compiled anew. -/
theorem applySlots_fitted {operators : List (String × Operator)} (announced : s.world.Announced)
    (present : s.world.bindings.get? binding = some b) (live : b.disposed = false)
    (wired : b.IsWired) (fitted : b.IsFitted s.world.sight)
    (applied : (applySlots binding editable operators).result s = (.ok (), t)) :
    ∃ b', t.world.bindings.get? binding = some b' ∧ b'.IsFitted t.world.sight := by
  induction operators generalizing s b with
  | nil =>
      cases applied
      exact ⟨b, present, fitted⟩
  | cons entry rest ih =>
      obtain ⟨name, operator⟩ := entry
      obtain ⟨⟨⟩, u, first, others⟩ := bind_ok applied
      obtain ⟨c, here, rfl⟩ := applySlot_ok present first
      obtain ⟨b', row, lives, wiredThen, fittedThen⟩ :=
        World.fitted_fit announced present live wired fitted here editable operator
      have step : s.world.Step False True (s.world.fit binding b editable name operator c) :=
        .fit s.world trivial present live editable name operator c
      have sight := (World.lodges_fit binding b editable name operator c s.world).sight
      exact ih (s := s.alter (.fit binding b editable name operator c))
        (World.announced_step step announced) row lives wiredThen
        (show b'.IsFitted (s.world.fit binding b editable name operator c).sight from
          sight ▸ fittedThen) others

/-- A binding that is handed over depends on what its operators read, and can be compiled
anew. -/
theorem attach_fitted {document : Ref .document} {element : Ref .element} {env : Environment}
    {resolved : Resolved} (announced : s.world.Announced)
    (worked : (attach document element env editable resolved).result s = (.ok binding, t)) :
    ∃ b, t.world.bindings.get? binding = some b ∧ b.IsFitted t.world.sight := by
  rw [attach, result_bind_ok (result_produce _ s)] at worked
  obtain ⟨ended, u, attempted, handed⟩ := bind_ok worked
  rcases attempt_ok attempted with ⟨⟨⟩, rfl, applied⟩ | ⟨error, rfl, -⟩
  · cases handed
    refine applySlots_fitted (b := .start document element resolved.declaration env) ?_
      (Table.get?_insert_fresh _ _) rfl ⟨fun _ => rfl, fun gone => Bool.noConfusion gone⟩
      ⟨rfl, fun _ none => absurd none List.not_mem_nil⟩ applied
    exact announced.of_rows (.refl _) fun _ m there => ⟨m, there, rfl⟩
  · dsimp only at handed
    rw [result_alter_bind] at handed
    cases handed

/-- So do all that are handed over to a view. -/
theorem attachAll_fitted {v : View} {env : Environment}
    {resolved : List (Ref .element × Resolved)} {bindings : List (Ref .binding)}
    (announced : s.world.Announced)
    (worked : (attachAll v env resolved).result s = (.ok bindings, t)) :
    ∀ binding ∈ bindings, ∃ b, t.world.bindings.get? binding = some b ∧
      b.IsFitted t.world.sight := by
  induction resolved generalizing s bindings t with
  | nil =>
      cases worked
      exact fun _ none => absurd none List.not_mem_nil
  | cons entry rest ih =>
      obtain ⟨element, r⟩ := entry
      rw [attachAll, result_world_bind] at worked
      obtain ⟨first, u, attached, more⟩ := bind_ok worked
      obtain ⟨ended, u', attempted, handed⟩ := bind_ok more
      rcases attempt_ok attempted with ⟨others, rfl, worked'⟩ | ⟨error, rfl, -⟩
      · cases handed
        have announcedThen : u.world.Announced := by
          have steps : Treads False True (attach v.document element env
              (v.isEditable (tagOf s.world v.document element)) r) s :=
            treads_attach _ _ _ _ _ False.elim
          rw [Treads, Leads, attached] at steps
          exact steps.announced announced
        obtain ⟨mine, new, lodges, ended | ⟨⟨_, ended⟩, -⟩⟩ := attachAll_lodges worked'
        · cases ended
          refine List.forall_mem_cons.mpr ⟨?_, ih announcedThen worked'⟩
          obtain ⟨b, row, fitted⟩ := attach_fitted announced attached
          have old : first ∉ others := fun among =>
            absurd (Table.lt_of_get? row) (Nat.not_lt_of_le (new first among))
          exact ⟨b, (lodges.others first old).trans row, lodges.sight ▸ fitted⟩
        · cases ended
      · dsimp only at handed
        rw [result_alter_bind] at handed
        cases handed

/-- A view that is bound brings in no bindings but such. -/
theorem fitted_bindView (view : Ref .view) (announced : s.world.Announced)
    (present : ((bindView view).result s).2.world.bindings.get? binding = some b)
    (live : b.disposed = false) :
    (s.world.bindings.get? binding).isSome ∨
      b.IsFitted ((bindView view).result s).2.world.sight := by
  have old : (s.world.unbindView view).bindings.get? binding = some b →
      (s.world.bindings.get? binding).isSome := fun there =>
    World.isSome_of_unbindView view (by rw [there]; rfl)
  rcases bindView_lodges view s with
    ⟨mine, -, lodges, disposed⟩ | ⟨v, env, found, t, u, bindings, -, resolved, resolves, attached, ended⟩
  · by_cases among : binding ∈ mine
    · exact absurd (live.symm.trans (disposed binding among b present)) Bool.false_ne_true
    · exact Or.inl (old (lodges.others binding among ▸ present))
  · obtain ⟨mine, -, lodges, handed | ⟨⟨_, handed⟩, -⟩⟩ := attachAll_lodges attached
    · cases handed
      rw [ended] at present ⊢
      by_cases among : binding ∈ bindings
      · have announcedThen : t.world.Announced := by
          have released : s.world.Steps False True (s.world.unbindView view) :=
            World.steps_unbindView view s.world
          have treads : Treads False False (resolveAll v env v.declarations)
              (s.alter (.unbindView view)) := treads_resolveAll v env v.declarations
          rw [Treads, Leads, resolved] at treads
          exact treads.announced (released.announced announced)
        obtain ⟨b', row, fitted⟩ := attachAll_fitted announcedThen attached binding among
        cases row.symm.trans present
        exact Or.inr fitted
      · have there : u.world.bindings.get? binding = some b := present
        rw [lodges.others binding among, resolves.others binding List.not_mem_nil] at there
        exact Or.inl (old there)
    · cases handed

end Run

end LiveBinding
