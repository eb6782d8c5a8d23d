/-
# LiveBinding.Proofs.Binding.Compile -- what is resolved can be compiled

Compiling fails for a name that the environment does not define and for nothing
else (`Expr.compile_ok`), whatever the models show, and it stops at the first such name
(`Expr.compile_error`).  So what was compiled once can be compiled at any time
(`Expr.compile_again`).  Resolving a declaration has looked up every name and every
operator (`Declaration.resolve_ok_iff`), so the expressions of a resolved declaration can
be compiled (`Resolved.Attachable.compiles`).
-/
import LiveBinding.Binding.Basic
import LiveBinding.Proofs.Fields

namespace LiveBinding

set_option autoImplicit false

variable {env : Environment} {catalog : Catalog}

/-- The environment of a model defines the names of the model. -/
theorem Environment.contains_ofNames {model : Ref .model} {names : List String} {name : String} :
    Index.contains name (ofNames model names) = true ↔ name ∈ names := by
  rw [ofNames, Index.contains_ofEntries, List.map_map]
  simp

theorem Environment.get?_ofNames {model : Ref .model} {names : List String} {name : String}
    {a : Accessor} (found : Index.get? name (ofNames model names) = some a) : a = ⟨name, model⟩ := by
  obtain ⟨other, -, same⟩ := List.mem_map.mp (Index.mem_ofEntries (Index.mem_of_get? found))
  cases same
  rfl

namespace Expr

mutual

/-- An expression can be compiled when its names are defined. -/
theorem compile_ok (selector : String) (env : Environment) (sight : Sight) :
    (expr : Expr) → (∀ name ∈ expr.names, Index.contains name.1 env = true) →
      ∃ c, expr.compile selector env sight = .ok c
  | .name word offset, known => by
      obtain ⟨a, found⟩ := Index.contains_iff.mp (known (word, offset) (by simp [names]))
      exact ⟨⟨.leaf a, []⟩, by simp only [compile, found]⟩
  | .literal value, _ => ⟨⟨.constant value, []⟩, rfl⟩
  | .object entries, known => by
      obtain ⟨c, compiled⟩ := compileEntries_ok selector env sight entries known
      exact ⟨_, by rw [compile, compiled]; rfl⟩
  | .negation operand, known => by
      obtain ⟨c, compiled⟩ := compile_ok selector env sight operand known
      exact ⟨_, by rw [compile, compiled]; rfl⟩

theorem compileEntries_ok (selector : String) (env : Environment) (sight : Sight) :
    (entries : List (String × Expr)) →
      (∀ name ∈ entryNames entries, Index.contains name.1 env = true) →
        ∃ c, compileEntries selector env sight entries = .ok c
  | [], _ => ⟨([], []), rfl⟩
  | (key, value) :: rest, known => by
      obtain ⟨first, compiled⟩ := compile_ok selector env sight value fun name among =>
        known name (List.mem_append_left _ among)
      obtain ⟨others, compiledRest⟩ := compileEntries_ok selector env sight rest fun name among =>
        known name (List.mem_append_right _ among)
      exact ⟨_, by rw [compileEntries, compiled, compiledRest]; rfl⟩

end

end Expr

/-! ## The name that is found fault with -/

namespace Declaration

variable {names : List (String × Nat)} {fault : String × Nat}

theorem firstUndefined?_eq_none :
    firstUndefined? env names = none ↔ ∀ name ∈ names, Index.contains name.1 env = true := by
  induction names with
  | nil => simp [firstUndefined?]
  | cons entry rest ih =>
      obtain ⟨name, offset⟩ := entry
      rw [firstUndefined?]
      by_cases defined : Index.contains name env = true
      · rw [if_pos defined, ih]
        simp [defined]
      · rw [if_neg defined]
        simp [defined]

theorem firstUndefined?_append (names others : List (String × Nat)) :
    firstUndefined? env (names ++ others) =
      (firstUndefined? env names).or (firstUndefined? env others) := by
  induction names with
  | nil => rfl
  | cons entry rest ih =>
      obtain ⟨name, offset⟩ := entry
      rw [List.cons_append, firstUndefined?, firstUndefined?]
      split
      · exact ih
      · rfl

/-- Up to the first name that is undefined all are defined. -/
theorem firstUndefined?_eq_some (found : firstUndefined? env names = some fault) :
    ∃ before after, names = before ++ fault :: after ∧
      (∀ name ∈ before, Index.contains name.1 env = true) ∧
      Index.contains fault.1 env = false := by
  induction names with
  | nil => cases found
  | cons entry rest ih =>
      obtain ⟨name, offset⟩ := entry
      rw [firstUndefined?] at found
      by_cases defined : Index.contains name env = true
      · rw [if_pos defined] at found
        obtain ⟨before, after, rfl, all, undefined⟩ := ih found
        exact ⟨(name, offset) :: before, after, rfl, List.forall_mem_cons.mpr ⟨defined, all⟩,
          undefined⟩
      · rw [if_neg defined] at found
        cases found
        exact ⟨[], rest, rfl, fun _ none => absurd none List.not_mem_nil,
          Bool.eq_false_iff.mpr defined⟩

end Declaration

namespace Expr

variable {selector : String} {sight : Sight} {fault : String × Nat}

open Declaration (firstUndefined? firstUndefined?_append firstUndefined?_eq_none)

mutual

/-- The compiler stops at the first name that is undefined. -/
theorem compile_error : (expr : Expr) → firstUndefined? env expr.names = some fault →
    expr.compile selector env sight = .error (undefined selector fault.1 fault.2)
  | .name word offset, found => by
      rw [names, firstUndefined?] at found
      split at found
      · cases found
      · rename_i unknown
        cases found
        have absent : Index.get? word env = none := by
          rcases known : Index.get? word env with _ | a
          · rfl
          · exact absurd (Index.contains_iff.mpr ⟨a, known⟩) unknown
        simp only [compile, absent]
  | .literal _, found => by cases found
  | .object entries, found => by
      rw [compile, compileEntries_error entries found]
      rfl
  | .negation operand, found => by
      rw [compile, compile_error operand found]
      rfl

theorem compileEntries_error : (entries : List (String × Expr)) →
    firstUndefined? env (entryNames entries) = some fault →
    compileEntries selector env sight entries = .error (undefined selector fault.1 fault.2)
  | [], found => by cases found
  | (key, value) :: rest, found => by
      rw [entryNames, firstUndefined?_append] at found
      rcases here : firstUndefined? env value.names with _ | fault'
      · rw [here] at found
        obtain ⟨c, compiled⟩ :=
          compile_ok selector env sight value (firstUndefined?_eq_none.mp here)
        rw [compileEntries, compiled, compileEntries_error rest found]
        rfl
      · rw [here] at found
        cases found
        rw [compileEntries, compile_error value here]
        rfl

end

/-- Whatever was compiled can be compiled anew at any time. -/
theorem compile_again {c : Compilation} {expr : Expr}
    (compiled : expr.compile selector env sight = .ok c) (later : Sight) :
    ∃ c', expr.compile selector env later = .ok c' := by
  refine compile_ok selector env later expr (firstUndefined?_eq_none.mp ?_)
  rcases found : firstUndefined? env expr.names with _ | fault
  · rfl
  · rw [compile_error expr found] at compiled
    cases compiled

end Expr

/-! ## Resolving -/

namespace Declaration

/-- An operator that is declared has a pair. -/
theorem exists_pair {d : Declaration} {operator : String} (listed : operator ∈ d.operators) :
    ∃ pair ∈ d.pairs, d.pair? operator = some pair := by
  obtain ⟨other, among, same⟩ := List.mem_map.mp listed
  have isThere : (d.pair? operator).isSome = true := by
    rw [pair?, List.find?_isSome]
    exact ⟨other, among, by simpa using same⟩
  obtain ⟨pair, found⟩ := Option.isSome_iff_exists.mp isThere
  exact ⟨pair, List.mem_of_find?_eq_some found, found⟩

/-- An operator whose expression was compiled can be compiled anew at any time. -/
theorem compileOperator_again {d : Declaration} {operator : String} {sight : Sight}
    {c : Compilation} (compiled : d.compileOperator operator env sight = .ok c) (later : Sight) :
    ∃ c', d.compileOperator operator env later = .ok c' := by
  unfold compileOperator at compiled ⊢
  split at compiled
  · exact Expr.compile_again compiled later
  · cases compiled

end Declaration

/-- The check of names passes when all names are defined. -/
theorem Declaration.checkNames_ok_iff {d : Declaration} :
    d.checkNames env = .ok () ↔ ∀ name ∈ d.names, Index.contains name.1 env = true := by
  rw [← firstUndefined?_eq_none, checkNames]
  split
  · rename_i none
    simp [none]
  · rename_i found
    simp [found]

theorem Resolved.lookup_ok {selector : String} {names : List String}
    {operators : List (String × Operator)} (found : lookup selector catalog names = .ok operators) :
    operators.map (·.1) = names ∧
      ∀ entry ∈ operators, Index.get? entry.1 catalog = some entry.2 := by
  induction names generalizing operators with
  | nil =>
      cases found
      exact ⟨rfl, by simp⟩
  | cons name rest ih =>
      rw [lookup] at found
      split at found
      · rename_i operator known
        rcases others : lookup selector catalog rest with error | ops
        · rw [others] at found
          cases found
        · rw [others] at found
          cases found
          obtain ⟨same, all⟩ := ih others
          refine ⟨by rw [List.map_cons, same], fun entry listed => ?_⟩
          rcases List.mem_cons.mp listed with rfl | later
          · exact known
          · exact all entry later
      · cases found

/-- All operators are found when the catalog has them all. -/
theorem Resolved.lookup_ok_iff (selector : String) {names : List String} :
    (∃ operators, lookup selector catalog names = .ok operators) ↔
      ∀ name ∈ names, Index.contains name catalog = true := by
  constructor
  · rintro ⟨operators, found⟩ name among
    obtain ⟨rfl, all⟩ := lookup_ok found
    obtain ⟨entry, listed, rfl⟩ := List.mem_map.mp among
    exact Index.contains_iff.mpr ⟨entry.2, all entry listed⟩
  · intro known
    induction names with
    | nil => exact ⟨[], rfl⟩
    | cons name rest ih =>
        obtain ⟨operator, there⟩ := Index.contains_iff.mp (known name List.mem_cons_self)
        obtain ⟨others, found⟩ := ih fun other among => known other (List.mem_cons_of_mem _ among)
        refine ⟨(name, operator) :: others, ?_⟩
        simp only [lookup, there, found]
        rfl

/-- A declaration is resolved when the catalog has all its operators and the
environment all its names. -/
theorem Declaration.resolve_ok_iff {d : Declaration} :
    (∃ r, d.resolve catalog env = .ok r) ↔
      (∀ operator ∈ d.operators, Index.contains operator catalog = true) ∧
        ∀ name ∈ d.names, Index.contains name.1 env = true := by
  rw [← Resolved.lookup_ok_iff d.selector, ← checkNames_ok_iff, resolve]
  rcases Resolved.lookup d.selector catalog d.operators with error | operators
  · simp [bind, Except.bind]
  · rcases d.checkNames env with error | _
    · simp [bind, Except.bind]
    · simp [bind, Except.bind]

/-- A resolved declaration whose expressions can be compiled. -/
structure Resolved.Attachable (env : Environment) (catalog : Catalog) (r : Resolved) : Prop where
  operators : r.operators.map (·.1) = r.declaration.operators
  catalogued : ∀ entry ∈ r.operators, Index.get? entry.1 catalog = some entry.2
  defined : ∀ name ∈ r.declaration.names, Index.contains name.1 env = true

theorem Declaration.attachable_of_resolve {d : Declaration} {r : Resolved}
    (resolved : d.resolve catalog env = .ok r) : r.declaration = d ∧ r.Attachable env catalog := by
  have defined := (resolve_ok_iff.mp ⟨r, resolved⟩).2
  rw [resolve] at resolved
  rcases found : Resolved.lookup d.selector catalog d.operators with error | operators
  · rw [found] at resolved
    cases resolved
  · rw [found] at resolved
    have checked := checkNames_ok_iff.mpr defined
    simp only [bind, Except.bind, checked] at resolved
    cases resolved
    obtain ⟨same, all⟩ := Resolved.lookup_ok found
    exact ⟨rfl, same, all, defined⟩

/-- The expression of an operator that is to be applied can be compiled. -/
theorem Resolved.Attachable.compiles {r : Resolved} (attachable : r.Attachable env catalog)
    {entry : String × Operator} (listed : entry ∈ r.operators) (sight : Sight) :
    ∃ pair c, r.declaration.pair? entry.1 = some pair ∧
      pair.expr.compile r.declaration.selector env sight = .ok c := by
  have named : entry.1 ∈ r.declaration.operators := by
    rw [← attachable.operators]
    exact List.mem_map_of_mem listed
  obtain ⟨pair, among, found⟩ := Declaration.exists_pair named
  obtain ⟨c, compiled⟩ := pair.expr.compile_ok r.declaration.selector env sight
    fun name there => attachable.defined name
      (List.mem_flatMap.mpr ⟨pair, among, there⟩)
  exact ⟨pair, c, found, compiled⟩

end LiveBinding
