/-
# LiveBinding.Proofs.Configuration.Report -- every problem, and each of them once

Validation makes three passes, and each has a rule of its own for what it has met before.  A
declaration blames a name at its first use and not again; an identifier of elements is blamed
at every occurrence but the first; a template is blamed wherever it cannot be read.

The passes go along with an accumulator of what was met.  Said without it, they list

* of the names of a declaration those that nothing defines, without repetitions
  (`unknownNames_eq_eraseDups`);
* of the identifiers in preorder those that stand earlier in the list as well
  (`repeatedIds_eq_repeats`), which are one fewer of each (`count_repeats`).

What validation reports is these lists, one after another (`problems_each_once`).
-/
import LiveBinding.Proofs.Configuration.Validate
import LiveBinding.Proofs.Document.Mount
import Mathlib.Data.List.Count

namespace LiveBinding

set_option autoImplicit false

/-- The members of a list that stand earlier in it as well, each at its place. -/
def repeats {α : Type} [DecidableEq α] (l : List α) : List α :=
  (l.zipIdx.filter fun (member, place) => member ∈ l.take place).map (·.1)

example : repeats ["a", "b", "a", "c", "a", "b"] = ["a", "a", "b"] := by decide

/-! ## What a declaration uses -/

/-- The names stand in the expression, in this order. -/
inductive Expr.Uses : Expr → List String → Prop
  | name (word : String) (offset : Nat) : Uses (.name word offset) [word]
  | literal (value : Json) : Uses (.literal value) []
  | object {entries : List (String × Expr)} {names : List (List String)}
      (each : List.Forall₂ (fun entry names => Uses entry.2 names) entries names) :
      Uses (.object entries) names.flatten
  | negation {operand : Expr} {names : List String} (uses : Uses operand names) :
      Uses (.negation operand) names

/-- The names stand in the expressions of the pairs, one after another. -/
def Declaration.Uses (d : Declaration) (names : List String) : Prop :=
  ∃ each, List.Forall₂ (fun pair names => pair.expr.Uses names) d.pairs each ∧ names = each.flatten

mutual

theorem Expr.uses_names : (expr : Expr) → expr.Uses (expr.names.map (·.1))
  | .name word offset => .name word offset
  | .literal value => .literal value
  | .object entries => by
      obtain ⟨each, uses, same⟩ := uses_entryNames entries
      rw [names, same]
      exact .object uses
  | .negation operand => .negation operand.uses_names

theorem Expr.uses_entryNames : (entries : List (String × Expr)) → ∃ each : List (List String),
    List.Forall₂ (fun entry names => entry.2.Uses names) entries each ∧
      (entryNames entries).map (·.1) = each.flatten
  | [] => ⟨[], .nil, rfl⟩
  | (_, value) :: rest => by
      obtain ⟨each, uses, same⟩ := uses_entryNames rest
      refine ⟨_ :: each, .cons value.uses_names uses, ?_⟩
      rw [entryNames, List.map_append, same, List.flatten_cons]

end

/-- The names that are gathered are those in use. -/
theorem Declaration.uses_names (d : Declaration) : d.Uses (d.names.map (·.1)) := by
  refine ⟨d.pairs.map fun pair => pair.expr.names.map (·.1), ?_, ?_⟩
  · exact List.forall₂_map_right_iff.mpr
      (List.forall₂_same.mpr fun pair _ => pair.expr.uses_names)
  · rw [names, List.map_flatMap, List.flatMap_def]

namespace Configuration

variable {known reported seen before ids names : List String} {selector text : String}

/-! ## Names and identifiers -/

theorem unknownNames_eq_eraseDups :
    unknownNames known reported names =
      (names.filter fun name => name ∉ known ∧ name ∉ reported).eraseDups := by
  induction names generalizing reported with
  | nil => rfl
  | cons name rest ih =>
      rw [unknownNames]
      split
      next met =>
        have dropped : ¬ (name ∉ known ∧ name ∉ reported) := not_and_or.mpr (by simpa using met)
        rw [List.filter_cons_of_neg (by simpa using dropped), ih]
      next new =>
        rw [List.filter_cons_of_pos (by simpa [not_or] using new), List.eraseDups_cons, ih,
          List.filter_filter]
        congr 2
        refine List.filter_congr fun other _ => ?_
        simp [and_left_comm, not_or, beq_eq_decide]

/-- Going along a list, `seen` holding what stands before it. -/
theorem repeatedIds_eq_filter (met : ∀ id, id ∈ seen ↔ id ∈ before) :
    repeatedIds seen ids =
      ((ids.zipIdx before.length).filter fun (id, place) => id ∈ (before ++ ids).take place).map
        (·.1) := by
  induction ids generalizing seen before with
  | nil => rfl
  | cons id rest ih =>
      have longer : before ++ id :: rest = (before ++ [id]) ++ rest := by simp
      have onwards : ∀ seen, (∀ other, other ∈ seen ↔ other ∈ before ++ [id]) →
          repeatedIds seen rest = ((rest.zipIdx (before.length + 1)).filter
            fun (other, place) => other ∈ (before ++ id :: rest).take place).map (·.1) := by
        intro seen met'
        rw [longer, ih met', List.length_append, List.length_singleton]
      have here : (before ++ id :: rest).take before.length = before := List.take_left
      rw [repeatedIds, List.zipIdx_cons]
      split
      next old =>
        rw [List.filter_cons_of_pos (by simpa [here] using (met id).mp old), List.map_cons, onwards]
        intro other
        rw [met, List.mem_append, List.mem_singleton, or_iff_left_of_imp]
        rintro rfl
        exact (met other).mp old
      next new =>
        rw [List.filter_cons_of_neg (by simpa [here, met] using new), onwards]
        intro other
        rw [List.mem_cons, met, List.mem_append, List.mem_singleton, or_comm]

theorem repeatedIds_eq_repeats (ids : List String) : repeatedIds [] ids = repeats ids := by
  have nothing : ∀ id, id ∈ ([] : List String) ↔ id ∈ ([] : List String) := fun _ => Iff.rfl
  exact repeatedIds_eq_filter nothing

/-- What was met before is repeated wherever it stands; of the others one occurrence is not. -/
theorem count_repeatedIds (id : String) :
    (repeatedIds seen ids).count id = if id ∈ seen then ids.count id else ids.count id - 1 := by
  induction ids generalizing seen with
  | nil => simp [repeatedIds]
  | cons first rest ih =>
      rw [repeatedIds]
      split
      next old =>
        rw [List.count_cons, ih, List.count_cons]
        by_cases same : first = id
        · subst same
          simp [old]
        · simp [same]
      next new =>
        rw [ih, List.count_cons]
        by_cases same : first = id
        · subst same
          simp [new]
        · simp [same, Ne.symm same]

theorem count_repeats (ids : List String) (id : String) :
    (repeats ids).count id = ids.count id - 1 := by
  rw [← repeatedIds_eq_repeats, count_repeatedIds, if_neg List.not_mem_nil]

/-! ## What there is to report -/

def templateProblem? (entry : String × ComputedEntry) : Option Problem :=
  match Template.read entry.2.template with
  | .ok _ => none
  | .error fault => some (.invalidTemplate entry.1 fault)

/-- What is wrong with a declaration: the first that applies. -/
inductive Findings (c : Configuration) (selector text : String) : List Problem → Prop where
  | noSelector (blank : Text.isBlankText selector = true) :
      Findings c selector text [.emptySelector]
  | noDeclaration (selects : Text.isBlankText selector = false)
      (blank : Text.isBlankText text = true) :
      Findings c selector text [.emptyDeclaration selector]
  | unreadable {e : DeclarationError} (selects : Text.isBlankText selector = false)
      (declares : Text.isBlankText text = false)
      (fails : Declaration.read selector text = .error e) :
      Findings c selector text [.invalidDeclaration selector e.offset e.fault]
  /-- Each name that is neither an attribute nor computed, in the order of first uses. -/
  | readable {d : Declaration} {names : List String}
      (selects : Text.isBlankText selector = false) (declares : Text.isBlankText text = false)
      (reads : Declaration.read selector text = .ok d) (uses : d.Uses names) :
      Findings c selector text
        ((names.filter fun name =>
            name ∉ Fields.keys c.attributes ∧ name ∉ Fields.keys c.computed).eraseDups.map
          (.unresolvedName selector))

def elementIds (c : Configuration) : List String :=
  (Fixture.preorderAll c.elements).filterMap Fixture.id?

theorem templateProblems_eq_filterMap (entries : Fields ComputedEntry) :
    templateProblems entries = entries.filterMap templateProblem? := by
  induction entries with
  | nil => rfl
  | cons entry rest ih =>
      obtain ⟨name, entry⟩ := entry
      rw [templateProblems, List.filterMap_cons, templateProblem?]
      cases Template.read entry.template with
      | ok template => exact ih
      | error fault => exact congrArg _ ih

variable {c : Configuration}

theorem findings_bindingProblems (c : Configuration) (selector text : String) :
    c.Findings selector text (bindingProblems c.knownNames selector text) := by
  rw [bindingProblems]
  split
  next blank => exact .noSelector blank
  next selects =>
    split
    next blank => exact .noDeclaration (by simpa using selects) blank
    next declares =>
      split
      next e fails => exact .unreadable (by simpa using selects) (by simpa using declares) fails
      next d reads =>
        have unknown : ∀ name, (name ∉ c.knownNames ∧ name ∉ ([] : List String)) ↔
            name ∉ Fields.keys c.attributes ∧ name ∉ Fields.keys c.computed := by
          simp [knownNames, not_or]
        simp only [unknownNames_eq_eraseDups, unknown]
        exact .readable (by simpa using selects) (by simpa using declares) reads d.uses_names

theorem problems_eq (c : Configuration) :
    c.problems = c.computed.filterMap templateProblem? ++
      (c.bindings.map fun binding => bindingProblems c.knownNames binding.1 binding.2).flatten ++
      (repeats c.elementIds).map .duplicateId := by
  rw [problems, templateProblems_eq_filterMap, repeatedIds_eq_repeats,
    Fixture.allIds_eq_filterMap, List.flatMap_def, elementIds]

theorem Findings.not_duplicateId {found : List Problem} (findings : c.Findings selector text found)
    (id : String) : .duplicateId id ∉ found := by
  cases findings <;> simp

/-- The first two passes report no identifier of an element. -/
theorem count_duplicateId (c : Configuration) (id : String) :
    c.problems.count (.duplicateId id) = c.elementIds.count id - 1 := by
  have templates : .duplicateId id ∉ c.computed.filterMap templateProblem? := by
    intro listed
    obtain ⟨entry, -, blamed⟩ := List.mem_filterMap.mp listed
    rw [templateProblem?] at blamed
    split at blamed <;> cases blamed
  have declarations : .duplicateId id ∉
      (c.bindings.map fun binding => bindingProblems c.knownNames binding.1 binding.2).flatten := by
    intro listed
    obtain ⟨_, among, blamed⟩ := List.mem_flatten.mp listed
    obtain ⟨binding, -, rfl⟩ := List.mem_map.mp among
    exact (c.findings_bindingProblems binding.1 binding.2).not_duplicateId id blamed
  have injective : Function.Injective Problem.duplicateId := fun _ _ => Problem.duplicateId.inj
  rw [problems_eq, List.count_append, List.count_append, List.count_eq_zero.mpr templates,
    List.count_eq_zero.mpr declarations, List.count_map_of_injective _ _ injective, count_repeats]
  omega

theorem validate_eq (c : Configuration) :
    c.validate = if c.problems = [] then .ok c else .error (.invalid c.problems) := by
  simp only [validate, List.isEmpty_iff]

/-- What validation reports, in this order: the templates that cannot be read; what is wrong
with each declaration; and the identifiers of elements that stand earlier in the preorder as
well, each at its place, so that one used `n` times is reported `n - 1` times.  A configuration
is accepted when that is nothing. -/
theorem problems_each_once (c : Configuration) :
    (∃ findings,
      List.Forall₂ (fun binding found => c.Findings binding.1 binding.2 found) c.bindings findings ∧
      c.problems = c.computed.filterMap templateProblem? ++ findings.flatten ++
        (repeats c.elementIds).map .duplicateId) ∧
    (∀ id, c.problems.count (.duplicateId id) = c.elementIds.count id - 1) ∧
    (c.validate = .ok c ↔ c.problems = []) ∧
    (c.validate = .error (.invalid c.problems) ↔ c.problems ≠ []) := by
  refine ⟨⟨_, ?_, c.problems_eq⟩, c.count_duplicateId, ?_, ?_⟩
  · exact List.forall₂_map_right_iff.mpr
      (List.forall₂_same.mpr fun binding _ => c.findings_bindingProblems binding.1 binding.2)
  · rw [validate_eq]
    split <;> simp [*]
  · rw [validate_eq]
    split <;> simp [*]

/-- A template that does not end, a blank selector, a declaration without a colon, one that uses
an unknown name twice, and an identifier that is used three times. -/
example :
    problems { empty with
        attributes := [("a", .null)]
        computed := [("total", ⟨"\x7b a", true⟩), ("label", ⟨"\x7ba\x7d", true⟩)]
        elements :=
          [.element "div" (some "app") [] none none
            [.element "p" (some "app") [] none none [], .element "b" (some "app") [] none none []]]
        bindings :=
          [(" ", "text: a"), ("p", "text a"), ("b", "text: b, html: !b, toggle: label")] } =
      [.invalidTemplate "total" (.unclosed 0), .emptySelector,
        .invalidDeclaration "p" 5 (.expectedColon (some (.name "a"))), .unresolvedName "b" "b",
        .duplicateId "app", .duplicateId "app"] := by
  decide +kernel

end Configuration

end LiveBinding
