/-
# LiveBinding.Proofs.Document.Moves -- when a document stays a tree

Changes of a document may move elements about.  One kind of move can make an element lie
below itself: appending it to itself or to something below it, which nothing forbids
(`Document.not_all_trees`).  No other change can (`IsForest.apply_iff`).

So a document that was empty at first is a tree all along exactly when every element is
appended outside its own subtree (`Document.trees_iff_movesOut`).
-/
import LiveBinding.Proofs.Document.Removal
import LiveBinding.Proofs.Document.Traversal

namespace LiveBinding.Document

set_option autoImplicit false

open Relation (TransGen ReflTransGen)

/-- The change appends no element to itself or to what is below it. -/
def Edit.movesOut (d : Document) : Edit → Bool
  | .appendChild parent child => parent ∉ child :: d.descendants child
  | _ => true

/-- Each change moves elements out of their own subtrees only, when its turn comes. -/
def movesOut (d : Document) : List Edit → Bool
  | [] => true
  | edit :: rest => edit.movesOut d && (d.apply edit).movesOut rest

variable {d d' : Document} {e a p c q : Ref .element}

/-! ## One change -/

/-- What lies below in a document lies below in any that has its links. -/
theorem IsBelow.mono (links : ∀ c p, d'.parent c = some p → d.parent c = some p)
    (below : d'.IsBelow e a) : d.IsBelow e a :=
  TransGen.mono links _ _ below

theorem IsForest.of_parents (forest : d.IsForest) (linked : d'.IsLinked)
    (links : ∀ c p, d'.parent c = some p → d.parent c = some p) : d'.IsForest :=
  ⟨linked, fun e below => forest.acyclic e (below.mono links)⟩

/-- Where the child was not, nothing is above but what was; and it brings along all that was
below it. -/
theorem isBelow_appendChild (there : d.contains c = true) (outside : ¬ d.IsWithin p c)
    (below : (d.appendChild p c).IsBelow e a) :
    d.IsBelow e a ∨ d.IsWithin e c ∧ d.IsWithin p a := by
  have step : ∀ {x y}, (d.appendChild p c).IsChild x y → x = c ∧ y = p ∨ d.IsChild x y := by
    intro x y child
    rw [IsChild, parent_appendChild there] at child
    split at child
    next same => exact Or.inl ⟨same, (Option.some.inj child).symm⟩
    next => exact Or.inr child
  induction below with
  | single child =>
      rcases step child with ⟨rfl, rfl⟩ | child
      · exact Or.inr ⟨.refl, .refl⟩
      · exact Or.inl (.single child)
  | tail _ child ih =>
      rcases step child with ⟨rfl, rfl⟩ | child
      · rcases ih with below | ⟨-, within⟩
        · exact Or.inr ⟨below.to_reflTransGen, .refl⟩
        · exact absurd within outside
      · rcases ih with below | ⟨within, above⟩
        · exact Or.inl (.tail below child)
        · exact Or.inr ⟨within, .tail above child⟩

/-- The way up to an element does not go by its parent. -/
theorem isWithin_appendChild (there : d.contains c = true) (within : d.IsWithin e c) :
    (d.appendChild p c).IsWithin e c := by
  induction within using ReflTransGen.head_induction_on with
  | refl => exact .refl
  | @head x y child _ ih =>
      by_cases same : x = c
      · rw [same]
        exact .refl
      · refine .head ?_ ih
        rw [IsChild, parent_appendChild there, if_neg same]
        exact child

namespace IsForest

variable (forest : d.IsForest)

include forest

theorem appendChild_iff (parent : d.contains p = true) (child : d.contains c = true) :
    (d.appendChild p c).IsForest ↔ ¬ d.IsWithin p c := by
  constructor
  · intro still within
    have up : (d.appendChild p c).IsChild c p := by
      rw [IsChild, parent_appendChild child, if_pos rfl]
    exact still.acyclic c (TransGen.head' up (isWithin_appendChild child within))
  · intro outside
    refine ⟨forest.toIsLinked.appendChild parent child, fun e below => ?_⟩
    rcases isBelow_appendChild child outside below with before | ⟨within, above⟩
    · exact forest.acyclic e before
    · exact outside (above.trans within)

/-- A change leaves a forest a forest exactly when it moves elements out of their own subtrees
only. -/
theorem apply_iff (edit : Edit) (there : ∀ e ∈ edit.elements, d.contains e = true) :
    (d.apply edit).IsForest ↔ edit.movesOut d = true := by
  have linked := forest.toIsLinked.apply edit there
  cases edit with
  | create tag =>
      refine iff_of_true (forest.of_parents linked fun c p child => ?_) rfl
      rw [apply, parent_create] at child
      exact child
  | appendChild p c =>
      rw [Edit.movesOut, decide_eq_true_iff, forest.mem_subtree]
      exact forest.appendChild_iff (there p List.mem_cons_self)
        (there c (List.mem_cons_of_mem _ List.mem_cons_self))
  | remove e =>
      refine iff_of_true (forest.of_parents linked fun c p child => ?_) rfl
      rw [apply, forest.parent_remove] at child
      split at child
      · cases child
      · exact child
  | _ =>
      refine iff_of_true (forest.of_parents linked fun c p child => ?_) rfl
      refine Eq.trans (Eq.symm (parent_modify_of_same ?_)) child
      exact fun _ => rfl

end IsForest

/-! ## A run of changes -/

theorem IsForest.run_iff (forest : d.IsForest) (edits : List Edit) (known : d.knows edits = true) :
    (∀ n, ((edits.take n).foldl apply d).IsForest) ↔ d.movesOut edits = true := by
  induction edits generalizing d with
  | nil => simpa [movesOut] using forest
  | cons edit rest ih =>
      rw [knows, Bool.and_eq_true, List.all_eq_true] at known
      rw [movesOut, Bool.and_eq_true]
      constructor
      · intro all
        have next : (d.apply edit).IsForest := by simpa using all 1
        exact ⟨(forest.apply_iff edit known.1).mp next, (ih next known.2).mp fun n => all (n + 1)⟩
      · rintro ⟨out, later⟩ n
        have next := (forest.apply_iff edit known.1).mpr out
        cases n with
        | zero => exact forest
        | succ n => exact (ih next known.2).mpr later n

theorem knows_take {edits : List Edit} (known : d.knows edits = true) (n : Nat) :
    d.knows (edits.take n) = true := by
  induction edits generalizing d n with
  | nil => rw [List.take_nil, knows]
  | cons edit rest ih =>
      cases n with
      | zero => rw [List.take_zero, knows]
      | succ n =>
          rw [knows, Bool.and_eq_true] at known
          rw [List.take_succ_cons, knows, known.1, ih known.2, Bool.and_true]

theorem isForest_empty : empty.IsForest :=
  .of_rank isLinked_empty (fun _ => 0) fun c p child => by rw [parent_empty] at child; cases child

/-- A document that was empty at first is a tree all along exactly when no element was
appended to itself or to something below it. -/
theorem trees_iff_movesOut (edits : List Edit) (known : empty.knows edits = true) :
    (∀ n, ((edits.take n).foldl apply empty).IsTree) ↔ empty.movesOut edits = true := by
  rw [← isForest_empty.run_iff edits known]
  constructor
  · intro trees n
    exact ⟨(IsMade.empty.edits (knows_take known n)).isLinked, (trees n).acyclic⟩
  · exact fun forests n => (forests n).isTree

namespace Sample

/-- Two nested sections with a word inside.  The inner one is moved out, and the outer one into
it; then it is taken away. -/
def turnover : List Edit :=
  [.create "section", .create "section", .create "b", .appendChild root ⟨1⟩, .appendChild ⟨1⟩ ⟨2⟩,
    .appendChild ⟨2⟩ ⟨3⟩, .appendChild root ⟨2⟩, .appendChild ⟨2⟩ ⟨1⟩, .remove ⟨2⟩]

/-- The outer one of two nested sections is appended to the inner one. -/
def knot : List Edit :=
  [.create "section", .create "section", .appendChild root ⟨1⟩, .appendChild ⟨1⟩ ⟨2⟩,
    .appendChild ⟨2⟩ ⟨1⟩]

end Sample

open Document.Sample in
theorem trees_iff_movesOut_turnover :
    empty.knows turnover = true ∧ (∀ n, ((turnover.take n).foldl apply empty).IsTree) ∧
      empty.knows knot = true ∧ ¬ ∀ n, ((knot.take n).foldl apply empty).IsTree := by
  have known : empty.knows turnover = true := by decide +kernel
  have known' : empty.knows knot = true := by decide +kernel
  have out : empty.movesOut turnover = true := by decide +kernel
  have caught : empty.movesOut knot ≠ true := by decide +kernel
  exact ⟨known, (trees_iff_movesOut turnover known).mpr out, known',
    fun trees => caught ((trees_iff_movesOut knot known').mp trees)⟩

open Document.Sample in
/-- Elements can be moved about until one lies below itself. -/
theorem not_all_trees :
    ¬ ∀ edits : List Edit,
      (∀ edit ∈ edits, (∃ tag, edit = .create tag) ∨
        (∃ parent child, edit = .appendChild parent child) ∨ ∃ e, edit = .remove e) →
      empty.knows edits = true → ∀ e, ¬ (edits.foldl apply empty).IsBelow e e := by
  intro always
  have outer : (knot.foldl apply empty).IsChild ⟨1⟩ ⟨2⟩ := by
    rw [IsChild]
    decide +kernel
  have inner : (knot.foldl apply empty).IsChild ⟨2⟩ ⟨1⟩ := by
    rw [IsChild]
    decide +kernel
  refine always knot ?_ (by decide +kernel) ⟨1⟩ (.tail (.single outer) inner)
  simp [knot]

end LiveBinding.Document
