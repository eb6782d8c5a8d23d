/-
# LiveBinding.Proofs.Binding.Meaning -- what expressions mean

An expression has a value wherever accessors can be read (`Expr.value`), without
being compiled.  Compiling it and reading the result gives that value
(`Expr.value_of_compile`).

A compiled expression that is not dirty holds no constant, so it may be read again
later without being compiled anew, and still gives what the expression means then
(`Expr.value_of_clean`).  And nothing matters for its value but the accessors that
were read to compile it and are read in what it was compiled to
(`Expr.value_congr`).
-/
import LiveBinding.Proofs.Binding.Compile

namespace LiveBinding

set_option autoImplicit false

namespace Expr

section Induction

variable {motive : Expr → Prop} (name : ∀ word offset, motive (.name word offset))
  (literal : ∀ value, motive (.literal value))
  (object : ∀ entries, (∀ entry ∈ entries, motive entry.2) → motive (.object entries))
  (negation : ∀ operand, motive operand → motive (.negation operand))

include name literal object negation

/-- What holds of names and literals, and of an object and a negation if it holds of
the expressions in them, holds of all expressions. -/
@[elab_as_elim]
theorem induct : (expr : Expr) → motive expr
  | .name word offset => name word offset
  | .literal value => literal value
  | .object entries => object entries fun entry _ => induct entry.2
  | .negation operand => negation operand (induct operand)
termination_by expr => sizeOf expr
decreasing_by
  · have inside := List.sizeOf_lt_of_mem ‹entry ∈ entries›
    have part : sizeOf entry.2 < sizeOf entry := by
      rw [Prod.mk.sizeOf_spec]
      omega
    rw [Expr.object.sizeOf_spec]
    omega
  · rw [Expr.negation.sizeOf_spec]
    omega

end Induction

mutual

/-- What an expression means where accessors are read by `look`. -/
def value (env : Environment) (look : Accessor → Json) : Expr → Json
  | .name word _ =>
      match Index.get? word env with
      | some a => look a
      | none => .null
  | .literal value => value
  | .object entries => .object (Index.ofEntries (entryValues env look entries))
  | .negation operand => .bool (!(operand.value env look).isTruthy)

def entryValues (env : Environment) (look : Accessor → Json) :
    List (String × Expr) → List (String × Json)
  | [] => []
  | (key, expr) :: rest => (key, expr.value env look) :: entryValues env look rest

end

theorem entryValues_eq_map (env : Environment) (look : Accessor → Json)
    (entries : List (String × Expr)) :
    entryValues env look entries = entries.map fun entry => (entry.1, entry.2.value env look) := by
  induction entries with
  | nil => rfl
  | cons entry rest ih => rw [entryValues, ih, List.map_cons]

end Expr

theorem Compiled.entryValues_eq_map (sight : Sight) (entries : List (String × Compiled)) :
    entryValues sight entries = entries.map fun entry => (entry.1, entry.2.value sight) := by
  induction entries with
  | nil => rfl
  | cons entry rest ih => rw [entryValues, ih, List.map_cons]

theorem Compiled.isDirty_of_mem {entries : List (String × Compiled)}
    (clean : anyDirty entries = false) {entry : String × Compiled} (listed : entry ∈ entries) :
    entry.2.isDirty = false := by
  induction entries with
  | nil => cases listed
  | cons first rest ih =>
      rw [anyDirty, Bool.or_eq_false_iff] at clean
      rcases List.mem_cons.mp listed with rfl | later
      · exact clean.1
      · exact ih clean.2 later

theorem Compiled.accessors_of_mem {entries : List (String × Compiled)}
    {entry : String × Compiled} (listed : entry ∈ entries) {a : Accessor}
    (among : a ∈ entry.2.accessors) : a ∈ entryAccessors entries := by
  induction entries with
  | nil => cases listed
  | cons first rest ih =>
      rw [entryAccessors]
      rcases List.mem_cons.mp listed with rfl | later
      · exact List.mem_append_left _ among
      · exact List.mem_append_right _ (ih later)

theorem Compiled.exists_of_entryAccessors {entries : List (String × Compiled)} {a : Accessor}
    (among : a ∈ entryAccessors entries) : ∃ entry ∈ entries, a ∈ entry.2.accessors := by
  induction entries with
  | nil => cases among
  | cons first rest ih =>
      rcases List.mem_append.mp among with here | later
      · exact ⟨first, List.mem_cons_self, here⟩
      · obtain ⟨entry, listed, among⟩ := ih later
        exact ⟨entry, List.mem_cons_of_mem _ listed, among⟩

namespace Expr

variable {selector : String} {env : Environment} {sight : Sight}

/-- All that reading the expression again depends on. -/
def readings (c : Compilation) : List Accessor :=
  c.accessors ++ c.compiled.accessors

/-! ## Taking compilations apart -/

/-- The entries of an object, each with what it was compiled to. -/
theorem compileEntries_inv {entries : List (String × Expr)}
    {result : List (String × Compiled) × List Accessor}
    (compiled : compileEntries selector env sight entries = .ok result) :
    ∃ each : List (String × (Expr × Compilation)),
      entries = each.map (fun entry => (entry.1, entry.2.1)) ∧
      result.1 = each.map (fun entry => (entry.1, entry.2.2.compiled)) ∧
      (∀ entry ∈ each, entry.2.1.compile selector env sight = .ok entry.2.2) ∧
      ∀ a, a ∈ result.2 ↔ ∃ entry ∈ each, a ∈ entry.2.2.accessors := by
  induction entries generalizing result with
  | nil =>
      cases compiled
      exact ⟨[], rfl, rfl, by simp, by simp⟩
  | cons entry rest ih =>
      obtain ⟨key, expr⟩ := entry
      rw [compileEntries] at compiled
      rcases first : expr.compile selector env sight with e | c
      · rw [first] at compiled
        cases compiled
      · rcases others : compileEntries selector env sight rest with e | result'
        · rw [first, others] at compiled
          cases compiled
        · rw [first, others] at compiled
          cases compiled
          obtain ⟨each, entries, compileds, all, reads⟩ := ih others
          refine ⟨(key, expr, c) :: each, by rw [entries, List.map_cons], ?_, ?_, ?_⟩
          · rw [List.map_cons, ← compileds]
          · intro entry listed
            rcases List.mem_cons.mp listed with rfl | later
            · exact first
            · exact all entry later
          · intro a
            simp [reads]

theorem compile_object {entries : List (String × Expr)} {c : Compilation}
    (compiled : (Expr.object entries).compile selector env sight = .ok c) :
    ∃ each : List (String × (Expr × Compilation)),
      entries = each.map (fun entry => (entry.1, entry.2.1)) ∧
      c.compiled = .composite ((Index.ofEntries each).map fun entry =>
        (entry.1, entry.2.2.compiled)) ∧
      (∀ entry ∈ each, entry.2.1.compile selector env sight = .ok entry.2.2) ∧
      ∀ a, a ∈ c.accessors ↔ ∃ entry ∈ each, a ∈ entry.2.2.accessors := by
  rw [compile] at compiled
  rcases inner : compileEntries selector env sight entries with e | result
  · rw [inner] at compiled
    cases compiled
  · rw [inner] at compiled
    cases compiled
    obtain ⟨each, same, compileds, all, reads⟩ := compileEntries_inv inner
    refine ⟨each, same, ?_, all, reads⟩
    dsimp only
    rw [compileds, Index.ofEntries_map fun entry : Expr × Compilation => entry.2.compiled]

theorem compile_negation {operand : Expr} {c : Compilation}
    (compiled : (Expr.negation operand).compile selector env sight = .ok c) :
    ∃ inner, operand.compile selector env sight = .ok inner ∧
      c = ⟨.constant (.bool (!(inner.compiled.value sight).isTruthy)), readings inner⟩ := by
  rw [compile] at compiled
  rcases inner : operand.compile selector env sight with e | c'
  · rw [inner] at compiled
    cases compiled
  · rw [inner] at compiled
    cases compiled
    exact ⟨c', rfl, rfl⟩

theorem compile_name {word : String} {offset : Nat} {c : Compilation}
    (compiled : (Expr.name word offset).compile selector env sight = .ok c) :
    ∃ a, Index.get? word env = some a ∧ c = ⟨.leaf a, []⟩ := by
  rw [compile] at compiled
  split at compiled
  · rename_i a found
    cases compiled
    exact ⟨a, found, rfl⟩
  · cases compiled

/-- The value of an object is made of the values of its entries. -/
theorem value_object (env : Environment) (look : Accessor → Json)
    (each : List (String × (Expr × Compilation))) :
    (Expr.object (each.map fun entry => (entry.1, entry.2.1))).value env look =
      .object ((Index.ofEntries each).map fun entry => (entry.1, entry.2.1.value env look)) := by
  rw [value, entryValues_eq_map, List.map_map]
  exact congrArg Json.object
    (Index.ofEntries_map (fun entry : Expr × Compilation => entry.1.value env look) each).symm

/-! ## What reading gives -/

/-- What an expression was compiled to gives what it means, at the time of compilation and,
if it is not dirty, at any other. -/
theorem value_of_compile_at {expr : Expr} {c : Compilation}
    (compiled : expr.compile selector env sight = .ok c) {later : Sight}
    (holds : later = sight ∨ c.compiled.isDirty = false) :
    c.compiled.value later = expr.value env (Accessor.value later) := by
  induction expr using induct generalizing c with
  | name word offset =>
      obtain ⟨a, found, rfl⟩ := compile_name compiled
      simp only [value, found]
      rfl
  | literal value =>
      cases compiled
      rfl
  | object entries ih =>
      obtain ⟨each, rfl, same, all, -⟩ := compile_object compiled
      rw [same] at holds ⊢
      rw [value_object, Compiled.value, Compiled.entryValues_eq_map, List.map_map]
      refine congrArg Json.object (List.map_congr_left fun entry listed => ?_)
      have among := Index.mem_ofEntries listed
      have means := ih _ (List.mem_map_of_mem among) (all entry among)
        (holds.imp_right fun clean => Compiled.isDirty_of_mem clean (List.mem_map_of_mem listed))
      exact congrArg (Prod.mk entry.1) means
  | negation operand ih =>
      obtain ⟨inner, compiles, rfl⟩ := compile_negation compiled
      obtain rfl | clean := holds
      · rw [value, ← ih compiles (Or.inl rfl)]
        rfl
      · cases clean

/-- Compiling an expression and reading the result gives what the expression means. -/
theorem value_of_compile {expr : Expr} {c : Compilation}
    (compiled : expr.compile selector env sight = .ok c) :
    c.compiled.value sight = expr.value env (Accessor.value sight) :=
  value_of_compile_at compiled (Or.inl rfl)

/-- What was compiled and is not dirty gives what the expression means at any time. -/
theorem value_of_clean {expr : Expr} {c : Compilation}
    (compiled : expr.compile selector env sight = .ok c) (clean : c.compiled.isDirty = false)
    (later : Sight) : c.compiled.value later = expr.value env (Accessor.value later) :=
  value_of_compile_at compiled (Or.inr clean)

/-- The value of an expression depends on what was read for it and on nothing else. -/
theorem value_congr {expr : Expr} {c : Compilation}
    (compiled : expr.compile selector env sight = .ok c) {look look' : Accessor → Json}
    (agree : ∀ a ∈ readings c, look a = look' a) : expr.value env look = expr.value env look' := by
  induction expr using induct generalizing c with
  | name word offset =>
      obtain ⟨a, found, rfl⟩ := compile_name compiled
      simp only [value, found]
      exact agree a List.mem_cons_self
  | literal value => rfl
  | object entries ih =>
      obtain ⟨each, rfl, same, all, reads⟩ := compile_object compiled
      rw [value_object, value_object]
      refine congrArg Json.object (List.map_congr_left fun entry listed => ?_)
      have among := Index.mem_ofEntries listed
      refine congrArg (Prod.mk entry.1)
        (ih _ (List.mem_map_of_mem among) (all entry among) fun a read => ?_)
      rcases List.mem_append.mp read with before | now
      · exact agree a (List.mem_append_left _ ((reads a).mpr ⟨entry, among, before⟩))
      · refine agree a (List.mem_append_right _ ?_)
        rw [same]
        exact Compiled.accessors_of_mem (List.mem_map_of_mem listed) now
  | negation operand ih =>
      obtain ⟨inner, compiles, rfl⟩ := compile_negation compiled
      rw [value, value, ih compiles fun a read => agree a (List.mem_append_left _ read)]

/-- What is read for an expression are accessors of its environment. -/
theorem mem_of_readings {expr : Expr} {c : Compilation}
    (compiled : expr.compile selector env sight = .ok c) {a : Accessor} (read : a ∈ readings c) :
    ∃ word, Index.get? word env = some a := by
  induction expr using induct generalizing c with
  | name word offset =>
      obtain ⟨b, found, rfl⟩ := compile_name compiled
      exact ⟨word, by rw [List.mem_singleton.mp read]; exact found⟩
  | literal value =>
      cases compiled
      cases read
  | object entries ih =>
      obtain ⟨each, rfl, same, all, reads⟩ := compile_object compiled
      have inner : ∀ entry ∈ each, a ∈ readings entry.2.2 → ∃ word, Index.get? word env = some a :=
        fun entry among => ih _ (List.mem_map_of_mem among) (all entry among)
      rcases List.mem_append.mp read with before | now
      · obtain ⟨entry, among, reads⟩ := (reads a).mp before
        exact inner entry among (List.mem_append_left _ reads)
      · rw [same] at now
        obtain ⟨_, listed, reads⟩ := Compiled.exists_of_entryAccessors now
        obtain ⟨entry, among, rfl⟩ := List.mem_map.mp listed
        exact inner entry (Index.mem_ofEntries among) (List.mem_append_right _ reads)
  | negation operand ih =>
      obtain ⟨inner, compiles, rfl⟩ := compile_negation compiled
      refine ih compiles ?_
      rcases List.mem_append.mp read with before | none
      · exact before
      · cases none

end Expr

end LiveBinding
