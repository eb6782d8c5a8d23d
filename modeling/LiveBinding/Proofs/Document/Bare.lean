/-
# LiveBinding.Proofs.Document.Bare -- a document without its listeners

Who listens to the edits of an element changes neither its content nor its place
in the tree (`Document.bare`), and selectors find the same elements.
-/
import LiveBinding.Document.Selector

namespace LiveBinding

set_option autoImplicit false

def Element.bare (element : Element) : Element :=
  { element with listeners := [] }

namespace Document

def bare (d : Document) : List Element :=
  d.elements.map Element.bare

variable {d d' : Document}

theorem bare_modify (e : Ref .element) {f : Element → Element}
    (still : ∀ element, (f element).bare = element.bare) (d : Document) :
    (d.modify e f).bare = d.bare := by
  apply List.ext_getElem?
  intro i
  simp only [bare, modify, List.getElem?_map]
  by_cases same : e.index = i
  · subst same
    rw [List.getElem?_modify_eq]
    rcases d.elements[e.index]? with _ | element
    · rfl
    · simp [still]
  · simp [same]

theorem bare_removeListener (e : Ref .element) (id : Nat) (d : Document) :
    (d.removeListener e id).bare = d.bare := by
  rw [removeListener, bare_modify]
  intro element
  rfl

/-- An element of the one is an element of the other, but for its listeners. -/
theorem get?_bare (same : d.bare = d'.bare) (e : Ref .element) :
    d.get? e = none ∧ d'.get? e = none ∨
      ∃ element element', d.get? e = some element ∧ d'.get? e = some element' ∧
        element.bare = element'.bare := by
  have found : (d.get? e).map Element.bare = (d'.get? e).map Element.bare := by
    simp only [get?, ← List.getElem?_map]
    exact congrArg (·[e.index]?) same
  rcases here : d.get? e with _ | element <;> rcases there : d'.get? e with _ | element' <;>
    rw [here, there] at found
  · exact Or.inl ⟨rfl, rfl⟩
  · cases found
  · cases found
  · exact Or.inr ⟨element, element', rfl, rfl, Option.some.inj found⟩

theorem length_bare (same : d.bare = d'.bare) : d.elements.length = d'.elements.length := by
  have lengths := congrArg List.length same
  simpa [bare] using lengths

theorem parent_bare (same : d.bare = d'.bare) (e : Ref .element) : d.parent e = d'.parent e := by
  rcases get?_bare same e with ⟨here, there⟩ | ⟨element, element', here, there, alike⟩
  · simp only [parent, here, there]
  · have parents : element.bare.parent = element'.bare.parent := by rw [alike]
    simp only [parent, here, there, Option.bind]
    exact parents

theorem children_bare (same : d.bare = d'.bare) (e : Ref .element) :
    d.children e = d'.children e := by
  rcases get?_bare same e with ⟨here, there⟩ | ⟨element, element', here, there, alike⟩
  · simp only [children, here, there]
  · have childrens : element.bare.children = element'.bare.children := by rw [alike]
    simp only [children, here, there]
    exact childrens

theorem fits_bare (same : d.bare = d'.bare) (c : Compound) (e : Ref .element) :
    d.fits c e = d'.fits c e := by
  rcases get?_bare same e with ⟨here, there⟩ | ⟨element, element', here, there, alike⟩
  · simp only [fits, here, there]
  · have contents : element.bare.content = element'.bare.content := by rw [alike]
    simp only [fits, here, there]
    exact congrArg c.fits contents

theorem below_bare (same : d.bare = d'.bare) (depth : Nat) (e : Ref .element) :
    d.below depth e = d'.below depth e := by
  induction depth generalizing e with
  | zero => rfl
  | succ depth ih =>
      simp only [below, children_bare same e]
      congr 1
      funext child
      rw [ih]

theorem climb_bare (same : d.bare = d'.bare) (top : Ref .element) (steps : Nat)
    (wanted : List Compound) (cursor : Option (Ref .element)) :
    d.climb top steps wanted cursor = d'.climb top steps wanted cursor := by
  induction steps generalizing wanted cursor with
  | zero => cases wanted <;> rfl
  | succ steps ih =>
      cases wanted with
      | nil => rfl
      | cons c outer =>
          cases cursor with
          | none => rfl
          | some e => simp only [climb, fits_bare same, parent_bare same, ih]

/-- A selector finds the same element. -/
theorem query_bare (same : d.bare = d'.bare) (top : Ref .element) (selector : String) :
    d.query top selector = d'.query top selector := by
  have accepted : d.accepts top (readSelector selector).reverse =
      d'.accepts top (readSelector selector).reverse := by
    funext e
    cases (readSelector selector).reverse with
    | nil => rfl
    | cons last outer =>
        simp only [accepts, fits_bare same, parent_bare same, climb_bare same, length_bare same]
  simp only [query, descendants, accepted, below_bare same, length_bare same]

end Document

end LiveBinding
