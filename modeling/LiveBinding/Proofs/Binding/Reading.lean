/-
# LiveBinding.Proofs.Binding.Reading -- what reading an expression gives and captures

Expressions are read in two turns: the operand of a negation while it is compiled, and
whatever is left when the result is read.  For a declaration that was read from text the
two together give what the expression means, meet a constant just where it holds one, and
capture what each of its names is read from, once (`Declaration.compileOperator_reads`).
In such expressions no object gives two expressions to one key; where one does, the
former is compiled and never read.
-/
import LiveBinding.Proofs.Binding.Meaning
import LiveBinding.Proofs.Declaration.Grammar
import LiveBinding.Proofs.Model.Reading

namespace LiveBinding

set_option autoImplicit false

variable {σ : Type}

/-! ## Distinct keys -/

namespace Expr

theorem distinctKeys_of_mem {entries : List (String × Expr)} (distinct : DistinctEntryKeys entries)
    {entry : String × Expr} (listed : entry ∈ entries) : entry.2.DistinctKeys := by
  induction entries with
  | nil => cases listed
  | cons first rest ih =>
      rcases List.mem_cons.mp listed with rfl | later
      · exact distinct.1
      · exact ih distinct.2 later

/-! ## Constants -/

mutual

/-- There is a literal or a negation in the expression. -/
def hasConstant : Expr → Bool
  | .name _ _ => false
  | .literal _ => true
  | .object entries => entriesHaveConstant entries
  | .negation _ => true

def entriesHaveConstant : List (String × Expr) → Bool
  | [] => false
  | (_, value) :: rest => value.hasConstant || entriesHaveConstant rest

end

theorem entriesHaveConstant_iff {entries : List (String × Expr)} :
    entriesHaveConstant entries = true ↔ ∃ entry ∈ entries, entry.2.hasConstant = true := by
  induction entries with
  | nil => simp [entriesHaveConstant]
  | cons first rest ih => simp [entriesHaveConstant, ih]

end Expr

theorem Compiled.anyDirty_iff {entries : List (String × Compiled)} :
    anyDirty entries = true ↔ ∃ entry ∈ entries, entry.2.isDirty = true := by
  induction entries with
  | nil => simp [anyDirty]
  | cons first rest ih => simp [anyDirty, ih]

theorem Compiled.mem_entryAccessors {entries : List (String × Compiled)} {a : Accessor} :
    a ∈ entryAccessors entries ↔ ∃ entry ∈ entries, a ∈ entry.2.accessors :=
  ⟨exists_of_entryAccessors, fun ⟨_, listed, among⟩ => accessors_of_mem listed among⟩

/-! ## What is read -/

namespace Expr

variable {selector : String} {env : Environment} {sight : Sight}

/-- Where each key has one expression, all entries of an object are there in what it is
compiled to. -/
theorem compile_object_of_distinct {entries : List (String × Expr)} {c : Compilation}
    (distinct : (Expr.object entries).DistinctKeys)
    (compiled : (Expr.object entries).compile selector env sight = .ok c) :
    ∃ (each : List (String × (Expr × Compilation))) (kept : List (String × Compiled)),
      entries = each.map (fun entry => (entry.1, entry.2.1)) ∧
      (∀ entry ∈ each, entry.2.1.DistinctKeys ∧
        entry.2.1.compile selector env sight = .ok entry.2.2) ∧
      c.compiled = .composite kept ∧
      (∀ nested, nested ∈ kept ↔ ∃ entry ∈ each, (entry.1, entry.2.2.compiled) = nested) ∧
      ∀ a, a ∈ c.accessors ↔ ∃ entry ∈ each, a ∈ entry.2.2.accessors := by
  obtain ⟨each, rfl, same, all, reads⟩ := compile_object compiled
  have keys : (each.map (·.1)).Nodup := by
    have once := distinct.1
    rwa [List.map_map] at once
  refine ⟨each, _, rfl, fun entry among => ⟨?_, all entry among⟩, same, fun nested => ?_, reads⟩
  · exact distinctKeys_of_mem distinct.2 (List.mem_map_of_mem among)
  · rw [List.mem_map]
    exact ⟨fun ⟨entry, kept, is⟩ => ⟨entry, Index.mem_ofEntries kept, is⟩,
      fun ⟨entry, among, is⟩ => ⟨entry, Index.mem_ofEntries_of_distinct keys among, is⟩⟩

/-- A constant is met just where the expression holds one. -/
theorem isDirty_of_compile {expr : Expr} (distinct : expr.DistinctKeys) {c : Compilation}
    (compiled : expr.compile selector env sight = .ok c) :
    c.compiled.isDirty = expr.hasConstant := by
  induction expr using induct generalizing c with
  | name word offset =>
      obtain ⟨a, found, rfl⟩ := compile_name compiled
      rfl
  | literal value =>
      cases compiled
      rfl
  | object entries ih =>
      obtain ⟨each, kept, rfl, all, same, keeps, -⟩ := compile_object_of_distinct distinct compiled
      have inner : ∀ entry ∈ each, entry.2.2.compiled.isDirty = entry.2.1.hasConstant :=
        fun entry among => ih _ (List.mem_map_of_mem among) (all entry among).1 (all entry among).2
      rw [same, Compiled.isDirty, hasConstant, Bool.eq_iff_iff, Compiled.anyDirty_iff,
        entriesHaveConstant_iff]
      constructor
      · rintro ⟨nested, listed, dirty⟩
        obtain ⟨entry, among, rfl⟩ := (keeps nested).mp listed
        exact ⟨_, List.mem_map_of_mem among, (inner entry among).symm.trans dirty⟩
      · rintro ⟨_, listed, constant⟩
        obtain ⟨entry, among, rfl⟩ := List.mem_map.mp listed
        exact ⟨_, (keeps _).mpr ⟨entry, among, rfl⟩, (inner entry among).trans constant⟩
  | negation operand ih =>
      obtain ⟨inner, -, rfl⟩ := compile_negation compiled
      rfl

/-- The accessors that are read for an expression are those of its names. -/
theorem mem_readings_iff {expr : Expr} (distinct : expr.DistinctKeys) {c : Compilation}
    (compiled : expr.compile selector env sight = .ok c) {a : Accessor} :
    a ∈ readings c ↔ ∃ name ∈ expr.names, Index.get? name.1 env = some a := by
  induction expr using induct generalizing c with
  | name word offset =>
      obtain ⟨b, found, rfl⟩ := compile_name compiled
      simp [readings, Compiled.accessors, names, found, eq_comm]
  | literal value =>
      cases compiled
      simp [readings, Compiled.accessors, names]
  | object entries ih =>
      obtain ⟨each, kept, rfl, all, same, keeps, reads⟩ :=
        compile_object_of_distinct distinct compiled
      have inner : ∀ entry ∈ each, a ∈ readings entry.2.2 ↔
          ∃ name ∈ entry.2.1.names, Index.get? name.1 env = some a :=
        fun entry among => ih _ (List.mem_map_of_mem among) (all entry among).1 (all entry among).2
      have outer : a ∈ readings c ↔ ∃ entry ∈ each, a ∈ readings entry.2.2 := by
        rw [readings, List.mem_append, reads, same, Compiled.accessors, Compiled.mem_entryAccessors]
        constructor
        · rintro (⟨entry, among, before⟩ | ⟨nested, listed, now⟩)
          · exact ⟨entry, among, List.mem_append_left _ before⟩
          · obtain ⟨entry, among, rfl⟩ := (keeps nested).mp listed
            exact ⟨entry, among, List.mem_append_right _ now⟩
        · rintro ⟨entry, among, read⟩
          rcases List.mem_append.mp read with before | now
          · exact Or.inl ⟨entry, among, before⟩
          · exact Or.inr ⟨_, (keeps _).mpr ⟨entry, among, rfl⟩, now⟩
      rw [outer, names]
      constructor
      · rintro ⟨entry, among, read⟩
        obtain ⟨name, named, found⟩ := (inner entry among).mp read
        exact ⟨name, mem_entryNames.mpr ⟨_, List.mem_map_of_mem among, named⟩, found⟩
      · rintro ⟨name, named, found⟩
        obtain ⟨_, listed, named⟩ := mem_entryNames.mp named
        obtain ⟨entry, among, rfl⟩ := List.mem_map.mp listed
        exact ⟨entry, among, (inner entry among).mpr ⟨name, named, found⟩⟩
  | negation operand ih =>
      obtain ⟨inner, compiles, rfl⟩ := compile_negation compiled
      rw [names, ← ih distinct compiles]
      simp [readings, Compiled.accessors]

end Expr

namespace Compilation

/-- What is captured is what the accessors are read from. -/
theorem mem_dependencies {c : Compilation} {sight : Sight} {d : Dependency} :
    d ∈ c.dependencies sight ↔ ∃ a ∈ Expr.readings c, a.dependency? sight = some d := by
  rw [dependencies, Collector.ofAccessors, Collector.mem_recordAll, List.mem_filterMap]
  exact or_iff_left List.not_mem_nil

theorem nodup_dependencies (c : Compilation) (sight : Sight) : (c.dependencies sight).Nodup :=
  Collector.nodup_recordAll List.nodup_nil

end Compilation

/-- Compiling the expression of an operator whose names are all defined, and reading it, gives
what the expression means where the models show this.  A constant is met exactly if the
expression holds a literal or a negation.  Captured is the announcement of each attribute that
a name of the expression reads, from the hub of its model, once, and nothing else. -/
theorem Declaration.compileOperator_reads {selector text operator : String} {d : Declaration}
    {pair : Pair} {env : Environment} (written : read selector text = .ok d)
    (found : d.pair? operator = some pair)
    (defined : ∀ name ∈ pair.expr.names, Index.contains name.1 env = true) (sight : Sight) :
    ∃ c, d.compileOperator operator env sight = .ok c ∧
      c.compiled.value sight = pair.expr.value env (Accessor.value sight) ∧
      (c.compiled.isDirty = true ↔ pair.expr.hasConstant = true) ∧
      (c.dependencies sight).Nodup ∧
      ∀ dependency, dependency ∈ c.dependencies sight ↔ ∃ name ∈ pair.expr.names,
        ∃ a, Index.get? name.1 env = some a ∧ a.dependency? sight = some dependency := by
  obtain ⟨c, compiled⟩ := pair.expr.compile_ok d.selector env sight defined
  have distinct : pair.expr.DistinctKeys :=
    ((read_iff_derives selector text d).2 written).2 pair (List.mem_of_find?_eq_some found)
  refine ⟨c, by rw [compileOperator, found]; exact compiled, Expr.value_of_compile compiled,
    by rw [Expr.isDirty_of_compile distinct compiled], c.nodup_dependencies sight,
    fun dependency => ?_⟩
  rw [Compilation.mem_dependencies]
  constructor
  · rintro ⟨a, read, depends⟩
    obtain ⟨name, named, accesses⟩ := (Expr.mem_readings_iff distinct compiled).mp read
    exact ⟨name, named, a, accesses, depends⟩
  · rintro ⟨name, named, a, accesses, depends⟩
    exact ⟨a, (Expr.mem_readings_iff distinct compiled).mpr ⟨name, named, accesses⟩, depends⟩

namespace Sample

/-- Whether something is open, as two classes. -/
def hinge : String := "className: \x7b open: isOpen, shut: !isOpen \x7d"

def hinged : Declaration :=
  ⟨"door", hinge, [⟨"className", 0,
    .object [("open", .name "isOpen" 19), ("shut", .negation (.name "isOpen" 34))]⟩]⟩

def ajar : Sight := fun _ name => if name = "isOpen" then some ⟨⟨0⟩, .bool true⟩ else none

end Sample

open Sample in
/-- A name that is read twice, once under a negation, is captured once. -/
theorem Declaration.compileOperator_reads_hinge :
    ∃ c, hinged.compileOperator "className" (.ofNames ⟨0⟩ ["isOpen"]) ajar = .ok c ∧
      c.compiled.value ajar = .object [("open", .bool true), ("shut", .bool false)] ∧
      c.compiled.isDirty = true ∧ c.dependencies ajar = [⟨⟨0⟩, "change:isOpen"⟩] := by
  have found : hinged.pair? "className" = some ⟨"className", 0, .object
      [("open", .name "isOpen" 19), ("shut", .negation (.name "isOpen" 34))]⟩ := rfl
  have written : read "door" hinge = .ok hinged := by rfl
  have defined : ∀ name ∈ ([("isOpen", 19), ("isOpen", 34)] : List (String × Nat)),
      Index.contains name.1 (Environment.ofNames ⟨0⟩ ["isOpen"]) = true := by decide +kernel
  obtain ⟨c, compiled, value, dirty, once, among⟩ :=
    compileOperator_reads written found defined ajar
  refine ⟨c, compiled, value, dirty.mpr rfl, ?_⟩
  cases compiled
  rfl

end LiveBinding
