/-
# LiveBinding.Proofs.Reapplication -- slots that are applied anew

When a dependency fires, a slot reads its expression again, and compiles it anew only if it
is dirty.  Two things are left to show of that.

A slot that is clean loses nothing: what an expression reads does not depend on what models
show (`Expr.reads_again`), so what was compiled once without meeting a constant reads what
it would if it were compiled anew, and nothing but what its binding depends on
(`Expr.clean_again`).  It takes models to stay on their hubs, as they do along every run
(`Trail.modelsLast`).

A slot that is dirty cannot fail: the check of names and the compiler find fault with the
same name first, whatever models show (`check_agrees`).  So what was checked
once can be compiled ever after, and along every run the slots of live bindings are such
(`Trail.compiles`): applying them anew never ends with an error.
-/
import LiveBinding.Proofs.Binding.Reading
import LiveBinding.Proofs.Ownership

namespace LiveBinding

set_option autoImplicit false

variable {σ : Type}

/-! ## Slots that are clean -/

namespace Expr

variable {selector : String} {env : Environment}

theorem exists_partner {α β : Type} {f : α → β} {l l' : List α} (same : l'.map f = l.map f)
    {a' : α} (listed : a' ∈ l') : ∃ a ∈ l, f a = f a' :=
  List.mem_map.mp (same ▸ List.mem_map_of_mem listed)

/-- Whatever models show, the same is read to compile an expression, and in what it is
compiled to. -/
theorem reads_again {first later : Sight} {expr : Expr} {c c' : Compilation}
    (compiled : expr.compile selector env first = .ok c)
    (again : expr.compile selector env later = .ok c') :
    (∀ a ∈ c'.accessors, a ∈ c.accessors) ∧
      ∀ a ∈ c'.compiled.accessors, a ∈ c.compiled.accessors := by
  induction expr using induct generalizing c c' with
  | name word offset =>
      obtain ⟨a, found, rfl⟩ := compile_name compiled
      obtain ⟨a', found', rfl⟩ := compile_name again
      cases found.symm.trans found'
      exact ⟨fun _ => id, fun _ => id⟩
  | literal value =>
      cases compiled
      cases again
      exact ⟨fun _ => id, fun _ => id⟩
  | object entries ih =>
      obtain ⟨each, rfl, same, all, reads⟩ := compile_object compiled
      obtain ⟨each', entries, same', all', reads'⟩ := compile_object again
      have kept : (Index.ofEntries each').map (fun entry => (entry.1, entry.2.1)) =
          (Index.ofEntries each).map (fun entry => (entry.1, entry.2.1)) := by
        rw [Index.ofEntries_map (fun entry : Expr × Compilation => entry.1),
          Index.ofEntries_map (fun entry : Expr × Compilation => entry.1), entries]
      have inner : ∀ entry ∈ each, ∀ entry' ∈ each',
          (entry.1, entry.2.1) = (entry'.1, entry'.2.1) →
          (∀ a ∈ entry'.2.2.accessors, a ∈ entry.2.2.accessors) ∧
            ∀ a ∈ entry'.2.2.compiled.accessors, a ∈ entry.2.2.compiled.accessors := by
        intro entry among entry' among' is
        refine ih _ (List.mem_map_of_mem among) (all entry among) ?_
        rw [(congrArg Prod.snd is : entry.2.1 = entry'.2.1)]
        exact all' entry' among'
      constructor
      · intro a read
        obtain ⟨entry', among', read'⟩ := (reads' a).mp read
        obtain ⟨entry, among, is⟩ := exists_partner entries.symm among'
        exact (reads a).mpr ⟨entry, among, (inner entry among entry' among' is).1 a read'⟩
      · intro a read
        rw [same', Compiled.accessors, Compiled.mem_entryAccessors] at read
        obtain ⟨_, listed, read⟩ := read
        obtain ⟨entry', among', rfl⟩ := List.mem_map.mp listed
        obtain ⟨entry, among, is⟩ := exists_partner kept among'
        rw [same, Compiled.accessors, Compiled.mem_entryAccessors]
        exact ⟨_, List.mem_map_of_mem among, (inner entry (Index.mem_ofEntries among) entry'
          (Index.mem_ofEntries among') is).2 a read⟩
  | negation operand ih =>
      obtain ⟨inner, compiles, rfl⟩ := compile_negation compiled
      obtain ⟨inner', compiles', rfl⟩ := compile_negation again
      obtain ⟨before, now⟩ := ih compiles compiles'
      exact ⟨fun a read => List.mem_append.mpr
        ((List.mem_append.mp read).imp (before a) (now a)), fun _ => id⟩

end Expr

namespace Expr

variable {selector : String} {env : Environment}

/-- An expression that was compiled in one world, and is clean, reads in every later one what
it would if it were compiled anew, and depended already on all that is read then. -/
theorem clean_again {v w : World σ} {expr : Expr} {c : Compilation}
    (opened : ∀ word a, Index.get? word env = some a → a.model.index < v.models.rows.length)
    (lasts : v.ModelsLast w) (compiled : expr.compile selector env v.sight = .ok c)
    (clean : c.compiled.isDirty = false) :
    ∃ c', expr.compile selector env w.sight = .ok c' ∧
      c.compiled.value w.sight = c'.compiled.value w.sight ∧
      ∀ d ∈ c'.dependencies w.sight, d ∈ c.dependencies v.sight := by
  obtain ⟨c', again⟩ := compile_again compiled w.sight
  refine ⟨c', again, ?_, fun d among => ?_⟩
  · rw [value_of_clean compiled clean, value_of_compile again]
  obtain ⟨a, read, depends⟩ := Compilation.mem_dependencies.mp among
  obtain ⟨word, accessed⟩ := mem_of_readings again read
  obtain ⟨seen, shown, rfl⟩ := Option.map_eq_some_iff.mp depends
  obtain ⟨seen', was, same⟩ := lasts.sight (opened word a accessed) shown
  obtain ⟨before, now⟩ := reads_again compiled again
  refine Compilation.mem_dependencies.mpr ⟨a, ?_, ?_⟩
  · exact List.mem_append.mpr ((List.mem_append.mp read).imp (before a) (now a))
  · rw [Accessor.dependency?, was, Option.map_some, same]

end Expr

namespace Sample

def named : State Unit :=
  ⟨(World.empty.openModel [("name", .text "Ada")]).2, [], ()⟩

def rename : Program Unit :=
  .call (.write ⟨0⟩ [("name", .text "Bob")]) fun _ => .done

def later : State Unit :=
  ((Run.run 4 rename).result named).2

def tag : Expr :=
  .object [("who", .name "name" 5)]

def tagged : Compilation :=
  ⟨.composite [("who", .leaf ⟨"name", ⟨0⟩⟩)], []⟩

end Sample

open Sample in
/-- What was compiled before shows the other name, as it would compiled anew. -/
theorem Expr.clean_again_tag :
    ∃ c, tag.compile "p" (.ofNames ⟨0⟩ ["name"]) later.world.sight = .ok c ∧
      tagged.compiled.value later.world.sight = c.compiled.value later.world.sight ∧
      c.compiled.value later.world.sight = .object [("who", .text "Bob")] ∧
      ∀ d ∈ c.dependencies later.world.sight, d ∈ tagged.dependencies named.world.sight := by
  have opened : ∀ word a, Index.get? word (Environment.ofNames ⟨0⟩ ["name"]) = some a →
      a.model.index < named.world.models.rows.length := by
    intro word a found
    rw [Environment.get?_ofNames found]
    exact Nat.one_pos
  have trail : Trail named (Run.moments 4 rename named) none later :=
    Run.trail_moments 4 rename named
  have compiled : tag.compile "p" (.ofNames ⟨0⟩ ["name"]) named.world.sight = .ok tagged := rfl
  obtain ⟨c, again, same, covered⟩ := Expr.clean_again opened trail.modelsLast.1 compiled rfl
  refine ⟨c, again, same, ?_, covered⟩
  rw [← same]
  rfl

/-! ## Slots that are checked -/

namespace Declaration

theorem compilePairs_agrees (selector : String) (env : Environment) (sight : Sight)
    (pairs : List Pair) :
    match firstUndefined? env (pairs.flatMap (·.expr.names)) with
    | none => ∃ compiled, compilePairs selector env sight pairs = .ok compiled
    | some fault => compilePairs selector env sight pairs =
        .error (Expr.undefined selector fault.1 fault.2) := by
  induction pairs with
  | nil => exact ⟨[], rfl⟩
  | cons pair rest ih =>
      rw [List.flatMap_cons, firstUndefined?_append, compilePairs]
      rcases here : firstUndefined? env pair.expr.names with _ | fault
      · obtain ⟨c, compiled⟩ :=
          pair.expr.compile_ok selector env sight (firstUndefined?_eq_none.mp here)
        rw [Option.none_or, compiled]
        split at ih
        · obtain ⟨others, done⟩ := ih
          exact ⟨(pair.key, c.compiled) :: others, by rw [done]; rfl⟩
        · rw [ih]
          rfl
      · rw [Expr.compile_error pair.expr here]
        rfl

/-- What is checked can be compiled at any time, operator by operator. -/
theorem compileOperator_of_checked {d : Declaration} {env : Environment} {operator : String}
    (checked : d.checkNames env = .ok ()) (listed : operator ∈ d.operators) (sight : Sight) :
    ∃ c, d.compileOperator operator env sight = .ok c := by
  obtain ⟨pair, among, found⟩ := exists_pair listed
  rw [compileOperator, found]
  exact pair.expr.compile_ok d.selector env sight fun name there =>
    checkNames_ok_iff.mp checked name (List.mem_flatMap.mpr ⟨pair, among, there⟩)

end Declaration

namespace Run

variable {s : State σ} {binding : Ref .binding} {b : Binding}

/-- A slot that can be compiled is applied anew without an error. -/
theorem reapply_ok (present : s.world.bindings.get? binding = some b) (compiles : b.Compiles)
    (index : Nat) (event : String) : ((reapply binding index event).result s).1 = .ok () := by
  rcases seated : b.slots[index]? with _ | slot
  · rw [reapply, result_world_bind]
    simp only [present, seated]
    rfl
  by_cases kept : s.world.keepsDocument b.document = true
  · have current : ∃ compiled, slot.current b s.world.sight = .ok compiled := by
      obtain ⟨c, compiled⟩ := compiles slot (List.mem_of_getElem? seated) s.world.sight
      unfold Slot.current
      split
      · exact ⟨c.compiled, by rw [compiled]; rfl⟩
      · exact ⟨slot.compiled, rfl⟩
    obtain ⟨compiled, current⟩ := current
    rw [result_reapply_ok present seated kept current]
  · rw [reapply, result_world_bind]
    simp only [present, seated, if_neg kept]
    rfl

end Run

/-- The slots of all live bindings can be compiled. -/
def World.Compiles (w : World σ) : Prop :=
  ∀ binding b, w.bindings.get? binding = some b → b.disposed = false → b.Compiles

/-- Bindings that are what they were can be compiled if they could. -/
theorem World.Compiles.of_lasts {v w : World σ} (compiles : v.Compiles)
    (lasts : v.BindingsLast w) {binding : Ref .binding} {b : Binding}
    (old : (v.bindings.get? binding).isSome) (present : w.bindings.get? binding = some b)
    (live : b.disposed = false) : b.Compiles := by
  obtain ⟨b', was, lived, same⟩ := lasts.lives old present live
  exact (compiles binding b' was lived).of_wiring same

/-- Along a run the slots of live bindings can always be compiled. -/
theorem Trail.compiles {start s : State σ} {past : List (Moment σ)} {awaited : Option (Call σ)}
    (bare : start.world.Announced) (begun : start.world.Compiles)
    (trail : Trail start past awaited s) : s.world.Compiles := by
  have same : ∀ {v w : World σ}, w.bindings = v.bindings → v.Compiles → w.Compiles :=
    fun same compiles binding b present => compiles binding b (same ▸ present)
  refine (trail.invariant False
    (fun _ s => s.world.Announced ∧ s.world.Compiles) ⟨bare, begun⟩
    ?_ ?_ ?_ ?_ ?_ ?_ False.elim fun _ _ => False.elim).2
  · rintro past s t steps ⟨announced, compiles⟩
    exact ⟨steps.announced announced, fun binding b present live =>
      compiles.of_lasts steps.bindingsLast (steps.isSome (by rw [present]; rfl)) present live⟩
  · exact fun _ => id
  · rintro past s hub event callback ⟨announced, compiles⟩
    refine ⟨announced.of_rows (World.lasts_subscribe hub event _ s.world) fun model m present => ?_,
      same (World.others_subscribe hub event _ s.world).1 compiles⟩
    exact ⟨m, (World.tables_subscribe hub event _ s.world).1 ▸ present, rfl⟩
  · rintro past s subscription ⟨announced, compiles⟩
    exact ⟨announced.of_rows (World.lasts_withdraw subscription s.world) fun model m present =>
      ⟨m, present, rfl⟩, same rfl compiles⟩
  · rintro past s t call fire answer quiet other performed steps ⟨announced, compiles⟩
    refine ⟨steps.announced announced, fun binding b present live => ?_⟩
    rcases Run.fitted_perform quiet performed announced present live with old | ⟨-, fitted⟩
    · exact compiles.of_lasts (Run.tenure_perform quiet performed).1 old present live
    · exact fitted.compiles
  · rintro past s first signal listener reaction - - - ⟨announced, compiles⟩
    exact ⟨announced.of_rows (.refl _) fun model m present => ⟨m, present, rfl⟩, same rfl compiles⟩

/-- The check of names and the compiler agree on every declaration, whatever models show:
both pass, or both end with the same error, which is about the first name in the declaration
that is not defined.  After a check that passed, every operator compiles at any time, and a
slot of such an operator is applied anew without an error.  So it is for every live binding
at every moment of every run. -/
theorem check_agrees (d : Declaration) (env : Environment) :
    (∀ sight,
      (d.checkNames env = .ok () ∧ ∃ compiled, d.compileAll env sight = .ok compiled) ∨
      ∃ before name offset after, d.names = before ++ (name, offset) :: after ∧
        (∀ earlier ∈ before, Index.contains earlier.1 env = true) ∧
        Index.contains name env = false ∧
        d.checkNames env = .error (Expr.undefined d.selector name offset) ∧
        d.compileAll env sight = .error (Expr.undefined d.selector name offset)) ∧
    (d.checkNames env = .ok () →
      (∀ operator ∈ d.operators, ∀ sight, ∃ c, d.compileOperator operator env sight = .ok c) ∧
      ∀ (s : State σ) binding b, s.world.bindings.get? binding = some b → b.declaration = d →
        b.env = env → (∀ slot ∈ b.slots, slot.name ∈ d.operators) →
          ∀ index event, ((Run.reapply binding index event).result s).1 = .ok ()) ∧
    ∀ (depth : Nat) (program : Program σ) (client : σ),
      ∀ m ∈ Run.moments depth program ⟨.empty, [], client⟩, ∀ binding b,
        m.state.world.bindings.get? binding = some b → b.disposed = false →
          ∀ index event, ((Run.reapply binding index event).result m.state).1 = .ok () := by
  refine ⟨fun sight => ?_, fun checked => ⟨fun operator listed sight =>
    Declaration.compileOperator_of_checked checked listed sight, ?_⟩, ?_⟩
  · have agrees := Declaration.compilePairs_agrees d.selector env sight d.pairs
    rw [← Declaration.names] at agrees
    rw [Declaration.checkNames, Declaration.compileAll]
    rcases found : Declaration.firstUndefined? env d.names with _ | ⟨name, offset⟩
    · rw [found] at agrees
      exact Or.inl ⟨rfl, agrees⟩
    · rw [found] at agrees
      obtain ⟨before, after, split, all, undefined⟩ :=
        Declaration.firstUndefined?_eq_some found
      exact Or.inr ⟨before, name, offset, after, split, all, undefined, rfl, agrees⟩
  · rintro s binding b present rfl rfl named index event
    exact Run.reapply_ok present (fun slot listed sight =>
      Declaration.compileOperator_of_checked checked (named slot listed) sight) index event
  · intro depth program client m listed binding b present live index event
    have settled : (World.empty : World σ).IsSettled [] := World.isSettled_empty
    obtain ⟨before, after, split⟩ := List.append_of_mem listed
    have trail := (Run.trail_moments depth program ⟨.empty, [], client⟩).upTo split
    have none : (World.empty : World σ).Compiles := fun binding b present => by
      rw [World.empty, Table.get?_empty] at present
      cases present
    exact Run.reapply_ok present
      (trail.compiles settled.balanced.announced none binding b present live) index event

end LiveBinding
