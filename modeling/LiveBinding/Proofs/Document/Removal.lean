/-
# LiveBinding.Proofs.Document.Removal -- what goes with an element, and what stays

Removing an element takes it out of the children of its parent and silences it and all that is
listed below it.  In a forest the list is the subtree, no more and no less, so the document is
changed there and at the former parent only (`Document.Removed`,
`Document.remove_confined`):

* inside, everything stays as it was but the listeners, which go, and the place of the element
  itself, which has no parent any more;
* the former parent loses that child, and keeps the others in their order;
* what is elsewhere stays as it was, and no selector leads from there into what was removed.
-/
import LiveBinding.Proofs.Document.Query

namespace LiveBinding.Document

set_option autoImplicit false

open Relation (TransGen)

/-- The second document is the first without an element and what is below it. -/
structure Removed (e : Ref .element) (d d' : Document) : Prop where
  alone : d'.parent e = none
  /-- The subtree is silent.  It stays together and shows what it showed. -/
  inside : ∀ q, d.IsWithin q e → d'.get? q = (d.get? q).map fun element =>
    { element with parent := if q = e then none else element.parent, listeners := [] }
  /-- The former parent has its other children, in their order. -/
  above : ∀ p, d.parent e = some p → d'.get? p = (d.get? p).map fun element =>
    { element with children := element.children.filter (· ≠ e) }
  /-- Other elements stay as they were, and so do their listeners. -/
  outside : ∀ q, ¬ d.IsWithin q e → d.parent e ≠ some q → d'.get? q = d.get? q
  next : d'.nextListener = d.nextListener
  /-- From elsewhere nothing of the subtree is found. -/
  hidden : ∀ top selector found, ¬ d.IsWithin top e → d'.query top selector = some found →
    ¬ d.IsWithin found e

variable {d : Document} {e q p top : Ref .element} {element : Element}

/-! ## Detaching and silencing one element -/

/-- Whoever is not the parent of an element does not list it. -/
theorem IsLinked.filter_children (linked : d.IsLinked) (found : d.get? q = some element)
    (apart : d.parent e ≠ some q) : element.children.filter (· ≠ e) = element.children := by
  have listed : d.children q = element.children := by rw [children_eq, found]; rfl
  rw [List.filter_eq_self, ← listed]
  intro other child
  refine decide_eq_true fun same => apart ?_
  rw [← same]
  exact (linked.mem_children q other).mp child

theorem get?_detach (linked : d.IsLinked) :
    (d.detach e).get? q = (d.get? q).map fun element =>
      { element with
        parent := if q = e then none else element.parent
        children := element.children.filter (· ≠ e) } := by
  unfold detach
  split
  next alone =>
    cases found : d.get? q with
    | none => rfl
    | some element =>
        have parentless : (if q = e then none else element.parent) = element.parent := by
          split
          next same => rw [← alone, ← same, parent, found, Option.bind_some]
          next => rfl
        have apart : d.parent e ≠ some q := by rw [alone]; exact (Option.some_ne_none q).symm
        rw [Option.map_some, parentless, linked.filter_children found apart]
  next p child =>
    rw [get?_modify, get?_modify]
    cases found : d.get? q with
    | none => simp
    | some element =>
        by_cases here : q = p
        · rw [if_pos here]
          split <;> rfl
        · have apart : d.parent e ≠ some q := by
            rw [child]
            exact fun same => here (Option.some.inj same).symm
          rw [if_neg here, Option.map_some, Option.map_some, linked.filter_children found apart]
          split <;> rfl

/-- Silencing elements takes the listeners of these, and nothing else. -/
theorem get?_silenced (es : List (Ref .element)) (d : Document) :
    (es.foldl silence d).get? q = (d.get? q).map fun element =>
      { element with listeners := if q ∈ es then [] else element.listeners } := by
  induction es generalizing d with
  | nil => simp
  | cons e rest ih =>
      rw [List.foldl_cons, ih, silence, get?_modify]
      by_cases same : q = e
      · rw [if_pos same, Option.map_map]
        congr 1
        funext element
        simp [same]
      · rw [if_neg same]
        simp only [List.mem_cons, same, false_or]

namespace IsForest

variable (forest : d.IsForest)

include forest

theorem mem_subtree : q ∈ e :: d.descendants e ↔ d.IsWithin q e := by
  rw [List.mem_cons, forest.mem_descendants, isWithin_iff]

/-- Nobody in the subtree of an element has the element as a child. -/
theorem parent_ne_of_isWithin (within : d.IsWithin q e) : d.parent e ≠ some q := by
  intro child
  exact forest.acyclic e ((isBelow_iff_parent child).mpr within)

/-- What removing an element makes of any element. -/
theorem get?_remove : (d.remove e).get? q = (d.get? q).map fun element =>
    { element with
      parent := if q = e then none else element.parent
      children := element.children.filter (· ≠ e)
      listeners := if q ∈ e :: d.descendants e then [] else element.listeners } := by
  rw [remove, get?_silenced, get?_detach forest.toIsLinked, Option.map_map]
  rfl

theorem parent_remove : (d.remove e).parent q = if q = e then none else d.parent q := by
  rw [parent, forest.get?_remove, parent]
  cases d.get? q with
  | none => exact (ite_self none).symm
  | some element => rfl

/-- The way up from what was removed does not leave it. -/
theorem isWithin_of_isBelow_remove (below : (d.remove e).IsBelow q top) (within : d.IsWithin q e) :
    d.IsWithin top e := by
  have step : ∀ {c p}, (d.remove e).IsChild c p → d.IsWithin c e → d.IsWithin p e := by
    intro c p child inside
    rw [IsChild, forest.parent_remove] at child
    split at child
    next => cases child
    next apart =>
      rcases isWithin_iff.mp inside with same | lower
      · exact absurd same apart
      · exact (isBelow_iff_parent child).mp lower
  induction below using TransGen.head_induction_on with
  | single child => exact step child within
  | head child _ ih => exact ih (step child within)

end IsForest

/-- Removing an element of a forest changes its subtree and the children of its parent, and
nothing else. -/
theorem remove_confined (forest : d.IsForest) (e : Ref .element) : d.Removed e (d.remove e) where
  alone := by rw [forest.parent_remove, if_pos rfl]
  inside q within := by
    rw [forest.get?_remove]
    refine Option.map_congr fun element found => ?_
    rw [if_pos (forest.mem_subtree.mpr within),
      forest.filter_children found (forest.parent_ne_of_isWithin within)]
  above p child := by
    have outside : ¬ d.IsWithin p e := fun within => forest.parent_ne_of_isWithin within child
    have apart : p ≠ e := fun same => outside (same ▸ .refl)
    rw [forest.get?_remove]
    refine Option.map_congr fun element found => ?_
    rw [if_neg fun listed => outside (forest.mem_subtree.mp listed), if_neg apart]
  outside q outside notParent := by
    have apart : q ≠ e := fun same => outside (same ▸ .refl)
    rw [forest.get?_remove]
    refine (Option.map_congr fun element found => ?_).trans Option.map_id'
    rw [if_neg fun listed => outside (forest.mem_subtree.mp listed), if_neg apart,
      forest.filter_children found notParent]
  next := (fewer_remove e d).next
  hidden top selector found outside answer within := by
    rw [query_eq_find?] at answer
    have listed := List.mem_of_find?_eq_some answer
    exact outside (forest.isWithin_of_isBelow_remove
      (forest.toIsLinked.remove.isBelow_of_mem_below listed) within)

namespace Sample

/-- A menu of three entries, the second with a link inside.  Edits of the link and of the third
entry are listened to. -/
def menu : Document :=
  (([Edit.create "ul", .create "li", .create "li", .create "li", .create "a", .appendChild root ⟨1⟩,
    .appendChild ⟨1⟩ ⟨2⟩, .appendChild ⟨1⟩ ⟨3⟩, .appendChild ⟨1⟩ ⟨4⟩, .appendChild ⟨3⟩ ⟨5⟩].foldl
      apply empty).addListener ⟨5⟩ (.client 0)).addListener ⟨4⟩ (.client 1)

theorem isForest_menu : menu.IsForest :=
  .of_sorted (((IsMade.empty.edits (by decide +kernel)).isLinked.addListener _ _).addListener _ _)
    (by decide +kernel)

end Sample

open Document.Sample in
theorem remove_confined_menu :
    menu.IsForest ∧ menu.Removed ⟨3⟩ (menu.remove ⟨3⟩) ∧ menu.listenerIds = [1, 0] ∧
      (menu.remove ⟨3⟩).listenerIds = [1] ∧ (menu.remove ⟨3⟩).children ⟨1⟩ = [⟨2⟩, ⟨4⟩] ∧
      (menu.remove ⟨3⟩).parent ⟨5⟩ = some ⟨3⟩ ∧ menu.query root "a" = some ⟨5⟩ ∧
      (menu.remove ⟨3⟩).query root "a" = none := by
  refine ⟨isForest_menu, remove_confined isForest_menu ⟨3⟩, ?_, ?_, ?_, ?_, ?_, ?_⟩
  · decide +kernel
  · decide +kernel
  · decide +kernel
  · decide +kernel
  · decide +kernel
  · decide +kernel

end LiveBinding.Document
