/-
# LiveBinding.Proofs.Configuration.Validate -- what validation finds

Nothing is found of templates exactly when all can be read (`parses_iff`).  A declaration of
which nothing is found can be read and uses known names only (`read_of_bindingProblems`), and
what is found of one stands for a declaration that cannot be resolved (`binding_of_blames`).
-/
import LiveBinding.Configuration.Validate
import LiveBinding.Proofs.Configuration.Plan

namespace LiveBinding.Configuration

set_option autoImplicit false

variable {known : List String} {selector text : String}

/-! ## Templates -/

theorem parses_iff {entries : Fields ComputedEntry} : templateProblems entries = [] ↔
    ∀ entry ∈ entries, (Template.read entry.2.template).isOk = true := by
  induction entries with
  | nil => simp [templateProblems]
  | cons entry rest ih =>
      obtain ⟨name, entry⟩ := entry
      rw [templateProblems, List.forall_mem_cons]
      rcases reads : Template.read entry.template with fault | template
      · simp [Except.isOk, Except.toBool]
      · simp [Except.isOk, Except.toBool, ih]

/-! ## Declarations -/

theorem mem_unknownNames {reported names : List String} {name : String} :
    name ∈ unknownNames known reported names ↔ name ∈ names ∧ name ∉ known ∧ name ∉ reported := by
  induction names generalizing reported with
  | nil => simp [unknownNames]
  | cons first rest ih =>
      rw [unknownNames]
      split
      · rename_i skipped
        rw [ih, List.mem_cons]
        constructor
        · exact fun ⟨later, unknown⟩ => ⟨Or.inr later, unknown⟩
        · rintro ⟨rfl | later, unknown⟩
          · exact absurd skipped (by simp [unknown])
          · exact ⟨later, unknown⟩
      · rename_i taken
        rw [not_or] at taken
        rw [List.mem_cons, ih, List.mem_cons, List.mem_cons, not_or]
        constructor
        · rintro (rfl | ⟨later, unknown, -, unreported⟩)
          · exact ⟨Or.inl rfl, taken⟩
          · exact ⟨Or.inr later, unknown, unreported⟩
        · rintro ⟨here, unknown, unreported⟩
          by_cases same : name = first
          · exact Or.inl same
          · exact Or.inr ⟨here.resolve_left same, unknown, same, unreported⟩

/-- Declarations without problems can be read and use known names. -/
theorem read_of_bindingProblems (none : bindingProblems known selector text = []) :
    ∃ d, Declaration.read selector text = .ok d ∧ ∀ name ∈ d.names, name.1 ∈ known := by
  rw [bindingProblems] at none
  split at none
  · cases none
  split at none
  · cases none
  split at none
  · cases none
  · rename_i d read
    refine ⟨d, read, fun name among => Classical.byContradiction fun unknown => ?_⟩
    have unresolved : name.1 ∈ unknownNames known [] (d.names.map (·.1)) :=
      mem_unknownNames.mpr ⟨List.mem_map_of_mem among, unknown, List.not_mem_nil⟩
    rw [List.map_eq_nil_iff.mp none] at unresolved
    cases unresolved

theorem invalidDeclaration_of_mem {other : String} {offset : Nat} {fault : Declaration.Fault}
    (found : .invalidDeclaration other offset fault ∈ bindingProblems known selector text) :
    selector = other ∧ ∃ e, Declaration.read selector text = .error e := by
  rw [bindingProblems] at found
  split at found
  · simp at found
  split at found
  · simp at found
  split at found
  · rename_i e read
    simp only [List.mem_singleton, Problem.invalidDeclaration.injEq] at found
    exact ⟨found.1.symm, e, read⟩
  · simp at found

theorem unresolvedName_of_mem {other name : String}
    (found : .unresolvedName other name ∈ bindingProblems known selector text) :
    selector = other ∧ ∃ d, Declaration.read selector text = .ok d ∧
      ∃ used ∈ d.names, used.1 = name ∧ name ∉ known := by
  rw [bindingProblems] at found
  split at found
  · simp at found
  split at found
  · simp at found
  split at found
  · simp at found
  · rename_i d read
    obtain ⟨unknown, among, same⟩ := List.mem_map.mp found
    cases same
    obtain ⟨listed, notKnown, -⟩ := mem_unknownNames.mp among
    obtain ⟨used, here, named⟩ := List.mem_map.mp listed
    exact ⟨rfl, d, read, used, here, named, notKnown⟩

/-! ## All problems -/

variable {c : Configuration}

/-- The validation reports that the selector has a declaration that cannot be read, or
one that uses an unknown name. -/
def Blames (c : Configuration) (selector : String) : Prop :=
  ∃ found, c.validate = .error (.invalid found) ∧
    ((∃ offset fault, .invalidDeclaration selector offset fault ∈ found) ∨
      ∃ name, .unresolvedName selector name ∈ found)

theorem problems_of_validate {found : List Problem} (refused : c.validate = .error (.invalid found)) :
    found = c.problems := by
  rw [validate] at refused
  split at refused
  · cases refused
  · cases refused
    rfl

theorem mem_problems_of_binding {problem : Problem} (found : problem ∈ c.problems)
    (template : ∀ name fault, problem ≠ .invalidTemplate name fault)
    (identifier : ∀ id, problem ≠ .duplicateId id) :
    ∃ binding ∈ c.bindings, problem ∈ bindingProblems c.knownNames binding.1 binding.2 := by
  have templates : ∀ entries : Fields ComputedEntry, problem ∉ templateProblems entries := by
    intro entries
    induction entries with
    | nil => exact List.not_mem_nil
    | cons entry rest ih =>
        rw [templateProblems]
        split
        · exact ih
        · rw [List.mem_cons, not_or]
          exact ⟨template _ _, ih⟩
  rw [problems, List.mem_append, List.mem_append, List.mem_flatMap] at found
  rcases found with (wrong | declared) | repeated
  · exact absurd wrong (templates _)
  · exact declared
  · obtain ⟨id, -, same⟩ := List.mem_map.mp repeated
    exact absurd same.symm (identifier id)

theorem binding_of_blames (blames : c.Blames selector) : ∃ text, (selector, text) ∈ c.bindings ∧
    ((∃ e, Declaration.read selector text = .error e) ∨
      ∃ d, Declaration.read selector text = .ok d ∧ ∃ used ∈ d.names, used.1 ∉ c.knownNames) := by
  obtain ⟨problems, refused, blamed⟩ := blames
  rw [problems_of_validate refused] at blamed
  rcases blamed with ⟨offset, fault, found⟩ | ⟨name, found⟩
  · obtain ⟨⟨other, text⟩, listed, here⟩ := mem_problems_of_binding found nofun nofun
    obtain ⟨rfl, unreadable⟩ := invalidDeclaration_of_mem here
    exact ⟨text, listed, Or.inl unreadable⟩
  · obtain ⟨⟨other, text⟩, listed, here⟩ := mem_problems_of_binding found nofun nofun
    obtain ⟨rfl, d, read, used, among, rfl, unknown⟩ := unresolvedName_of_mem here
    exact ⟨text, listed, Or.inr ⟨d, read, used, among, unknown⟩⟩

/-- What is accepted has no problems: all templates and declarations can be read, and
declarations use known names. -/
theorem accepted_of_validate (accepted : c.validate = .ok c) : c.Parses ∧
    ∀ binding ∈ c.bindings, ∃ d, Declaration.read binding.1 binding.2 = .ok d ∧
      ∀ used ∈ d.names, used.1 ∈ c.knownNames := by
  have none : c.problems = [] := by
    rw [validate] at accepted
    split at accepted
    · rename_i empty
      exact List.isEmpty_iff.mp empty
    · cases accepted
  rw [problems, List.append_eq_nil_iff, List.append_eq_nil_iff, List.flatMap_eq_nil_iff] at none
  exact ⟨parses_iff.mp none.1.1, fun binding listed => read_of_bindingProblems (none.1.2 binding listed)⟩

end LiveBinding.Configuration
