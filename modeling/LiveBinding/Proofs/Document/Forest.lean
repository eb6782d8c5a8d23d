/-
# LiveBinding.Proofs.Document.Forest -- documents without cycles, and their order

A linked document is a forest when no element lies below itself (`Document.IsForest`).  The
subtrees of two children of one element are then disjoint, so that document order is an
order: an element precedes what lies below it, and what lies below one child precedes what
lies below a later one (`Document.Precedes`, `IsForest.not_precedes_of_precedes`).

From an element up to another there are fewer steps than the document has elements
(`IsForest.exists_rises`).  So `descendants` looks deep enough: it lists what lies below an
element, all of it, in document order.
-/
import LiveBinding.Proofs.Document.Links
import Mathlib.Data.List.Perm.Subperm
import Mathlib.Logic.Relation

namespace LiveBinding.Document

set_option autoImplicit false

open Relation (TransGen ReflTransGen)

/-- The second is the parent of the first. -/
def IsChild (d : Document) (c p : Ref .element) : Prop := d.parent c = some p

/-- The second is an ancestor of the first. -/
def IsBelow (d : Document) (e a : Ref .element) : Prop := TransGen d.IsChild e a

/-- The first is in the subtree of the second. -/
def IsWithin (d : Document) (e a : Ref .element) : Prop := ReflTransGen d.IsChild e a

/-- Parents and children agree, and nothing lies below itself. -/
structure IsForest (d : Document) : Prop extends IsLinked d where
  acyclic : ∀ e, ¬ d.IsBelow e e

/-- Comes earlier in document order. -/
inductive Precedes (d : Document) : Ref .element → Ref .element → Prop where
  /-- An ancestor precedes what is below it. -/
  | above {a e : Ref .element} (below : d.IsBelow e a) : Precedes d a e
  /-- A subtree precedes the subtree of a later sibling. -/
  | beside {p first second a e : Ref .element} (siblings : [first, second].Sublist (d.children p))
      (left : d.IsWithin a first) (right : d.IsWithin e second) : Precedes d a e

/-- The second is reached from the first in so many steps, each to a parent. -/
inductive Rises (d : Document) : Nat → Ref .element → Ref .element → Prop where
  | here (e : Ref .element) : Rises d 0 e e
  | step {n : Nat} {e p a : Ref .element} (child : d.IsChild e p) (rest : Rises d n p a) :
      Rises d (n + 1) e a

variable {d : Document} {e a b p top first second : Ref .element} {n depth : Nat}

theorem isWithin_iff : d.IsWithin e a ↔ e = a ∨ d.IsBelow e a :=
  Relation.reflTransGen_iff_eq_or_transGen.trans (or_congr_left eq_comm)

/-- What an element lies below, its parent is within. -/
theorem isBelow_iff_parent (child : d.IsChild e p) : d.IsBelow e a ↔ d.IsWithin p a := by
  constructor
  · intro below
    obtain ⟨p', child', within⟩ := TransGen.head'_iff.mp below
    rwa [Option.some.inj (child.symm.trans child')]
  · exact TransGen.head' child

/-- Of two subtrees that an element is in, one is in the other. -/
theorem isWithin_or_isWithin (one : d.IsWithin e a) (other : d.IsWithin e b) :
    d.IsWithin a b ∨ d.IsWithin b a :=
  ReflTransGen.total_of_right_unique
    (fun _ _ _ parent parent' => Option.some.inj (parent.symm.trans parent')) one other

/-- Distinct elements of a list stand in one order only. -/
theorem not_sublist_swap {l : List (Ref .element)} (distinct : l.Nodup)
    (order : [a, b].Sublist l) : ¬ [b, a].Sublist l := by
  induction l with
  | nil => cases order
  | cons c rest ih =>
      obtain ⟨new, distinct⟩ := List.nodup_cons.mp distinct
      intro swapped
      rcases List.cons_sublist_cons'.mp order with later | ⟨rfl, later⟩ <;>
        rcases List.cons_sublist_cons'.mp swapped with later' | ⟨rfl, later'⟩
      · exact ih distinct later later'
      · exact new (later.subset (List.mem_cons_of_mem _ List.mem_cons_self))
      · exact new (later'.subset (List.mem_cons_of_mem _ List.mem_cons_self))
      · exact new (later.subset List.mem_cons_self)

theorem length_le_of_contains {es : List (Ref .element)} (distinct : es.Nodup)
    (there : ∀ x ∈ es, d.contains x = true) : es.length ≤ d.elements.length := by
  have indices : (es.map (·.index)).Nodup := distinct.map fun x y same => by
    cases x
    cases y
    exact congrArg Ref.mk same
  have inside : es.map (·.index) ⊆ List.range d.elements.length := by
    intro i listed
    obtain ⟨x, met, rfl⟩ := List.mem_map.mp listed
    exact List.mem_range.mpr (of_decide_eq_true (there x met))
  simpa using (indices.subperm inside).length_le

theorem Rises.isWithin (rises : d.Rises n e a) : d.IsWithin e a := by
  induction rises with
  | here e => exact .refl
  | step child _ ih => exact .head child ih

theorem Rises.isBelow (rises : d.Rises (n + 1) e a) : d.IsBelow e a := by
  cases rises with
  | step child rest => exact TransGen.head' child rest.isWithin

/-- The last step up is to the parent of one that is a step nearer. -/
theorem rises_succ_iff : d.Rises (n + 1) e a ↔ ∃ c, d.Rises n e c ∧ d.IsChild c a := by
  constructor
  · intro rises
    induction n generalizing e with
    | zero =>
        cases rises with
        | step child rest =>
            cases rest
            exact ⟨e, .here e, child⟩
    | succ n ih =>
        cases rises with
        | step child rest =>
            obtain ⟨c, nearer, last⟩ := ih rest
            exact ⟨c, .step child nearer, last⟩
  · rintro ⟨c, rises, last⟩
    induction rises with
    | here e => exact .step last (.here a)
    | step child _ ih => exact .step child (ih last)

/-- As many levels are listed as are asked for. -/
theorem IsLinked.mem_below_iff (linked : d.IsLinked) :
    e ∈ d.below depth top ↔ ∃ n < depth, d.Rises (n + 1) e top := by
  induction depth generalizing top with
  | zero => simp [below]
  | succ depth ih =>
      simp only [below, List.mem_flatMap, List.mem_cons, ih, linked.mem_children]
      constructor
      · rintro ⟨c, child, rfl | ⟨n, few, rises⟩⟩
        · exact ⟨0, Nat.succ_pos _, .step child (.here top)⟩
        · exact ⟨n + 1, Nat.succ_lt_succ few, rises_succ_iff.mpr ⟨c, rises, child⟩⟩
      · rintro ⟨n, few, rises⟩
        obtain ⟨c, nearer, child⟩ := rises_succ_iff.mp rises
        cases n with
        | zero =>
            cases nearer
            exact ⟨e, child, Or.inl rfl⟩
        | succ n => exact ⟨c, child, Or.inr ⟨n, Nat.lt_of_succ_lt_succ few, nearer⟩⟩

theorem IsLinked.isBelow_of_mem_below (linked : d.IsLinked) (listed : e ∈ d.below depth top) :
    d.IsBelow e top := by
  obtain ⟨n, -, rises⟩ := linked.mem_below_iff.mp listed
  exact rises.isBelow

/-- What lies below an element is listed in document order. -/
theorem IsLinked.pairwise_below (linked : d.IsLinked) (depth : Nat) (top : Ref .element) :
    (d.below depth top).Pairwise d.Precedes := by
  induction depth generalizing top with
  | zero => exact .nil
  | succ depth ih =>
      have within : ∀ {c x}, x ∈ c :: d.below depth c → d.IsWithin x c := by
        intro c x listed
        rcases List.mem_cons.mp listed with rfl | below
        · exact .refl
        · exact (linked.isBelow_of_mem_below below).to_reflTransGen
      rw [below, List.pairwise_flatMap]
      constructor
      · intro c _
        exact List.pairwise_cons.mpr
          ⟨fun e listed => .above (linked.isBelow_of_mem_below listed), ih c⟩
      · rw [List.pairwise_iff_forall_sublist]
        intro first second siblings x left y right
        exact .beside siblings (within left) (within right)

theorem IsLinked.pairwise_descendants (linked : d.IsLinked) (top : Ref .element) :
    (d.descendants top).Pairwise d.Precedes :=
  linked.pairwise_below _ top

namespace IsForest

/-- Whoever has ranks that rise from parents to children has no cycle. -/
theorem of_rank (linked : d.IsLinked) (rank : Ref .element → Nat)
    (rising : ∀ c p, d.parent c = some p → rank p < rank c) : d.IsForest where
  toIsLinked := linked
  acyclic e := by
    have lower : ∀ {e a}, d.IsBelow e a → rank a < rank e := by
      intro e a below
      induction below with
      | single child => exact rising _ _ child
      | tail _ child ih => exact Nat.lt_trans (rising _ _ child) ih
    exact fun below => Nat.lt_irrefl _ (lower below)

/-- In a document where parents are older than their children there is no cycle. -/
theorem of_sorted (linked : d.IsLinked)
    (sorted : ((List.range d.elements.length).all fun i =>
      (d.parent ⟨i⟩).all fun p => p.index < i) = true) : d.IsForest := by
  refine .of_rank linked Ref.index fun c p child => ?_
  have inside : c.index ∈ List.range d.elements.length :=
    List.mem_range.mpr (of_decide_eq_true (contains_of_parent child))
  have older := List.all_eq_true.mp sorted c.index inside
  rw [show d.parent ⟨c.index⟩ = some p from child] at older
  exact of_decide_eq_true older

variable (forest : d.IsForest)

include forest

/-! ## Document order -/

/-- The subtrees of two siblings have nothing in common. -/
theorem eq_of_siblings (here : d.IsChild first p) (there : d.IsChild second p)
    (left : d.IsWithin e first) (right : d.IsWithin e second) : first = second := by
  have apart : ∀ {x y}, d.IsChild x p → d.IsChild y p → d.IsWithin x y → x = y := by
    intro x y child child' within
    rcases isWithin_iff.mp within with same | below
    · exact same
    · exact absurd (TransGen.head' child' ((isBelow_iff_parent child).mp below)) (forest.acyclic y)
  rcases isWithin_or_isWithin left right with within | within
  · exact apart here there within
  · exact (apart there here within).symm

theorem isChild_of_siblings (siblings : [first, second].Sublist (d.children p)) :
    d.IsChild first p ∧ d.IsChild second p :=
  ⟨(forest.mem_children p first).mp (siblings.subset List.mem_cons_self),
    (forest.mem_children p second).mp
      (siblings.subset (List.mem_cons_of_mem _ List.mem_cons_self))⟩

/-- No element is in the subtrees of two that stand one after the other. -/
theorem not_isWithin_siblings (siblings : [first, second].Sublist (d.children p))
    (left : d.IsWithin e first) : ¬ d.IsWithin e second := by
  obtain ⟨here, there⟩ := forest.isChild_of_siblings siblings
  intro right
  obtain rfl := forest.eq_of_siblings here there left right
  exact List.nodup_iff_sublist.mp (forest.nodup p) first siblings

/-- What precedes an element does not come after it. -/
theorem not_precedes_of_precedes (order : d.Precedes a e) : ¬ d.Precedes e a := by
  intro back
  cases order with
  | above below =>
      cases back with
      | above below' => exact forest.acyclic _ (below.trans below')
      | beside siblings left right =>
          exact forest.not_isWithin_siblings siblings left (below.to_reflTransGen.trans right)
  | @beside p first second _ _ siblings left right =>
      obtain ⟨here, there⟩ := forest.isChild_of_siblings siblings
      cases back with
      | above below' =>
          exact forest.not_isWithin_siblings siblings left (below'.to_reflTransGen.trans right)
      | @beside p' first' second' _ _ siblings' left' right' =>
          obtain ⟨here', there'⟩ := forest.isChild_of_siblings siblings'
          -- `first` and `second'` are both above `a`: one subtree is in the other
          rcases isWithin_or_isWithin left right' with within | within <;>
            rcases isWithin_iff.mp within with rfl | below
          · obtain rfl : p = p' := Option.some.inj (here.symm.trans there')
            obtain rfl := forest.eq_of_siblings there here' right left'
            exact not_sublist_swap (forest.nodup p) siblings siblings'
          · have beside : d.IsBelow second second' :=
              (isBelow_iff_parent there).mpr ((isBelow_iff_parent here).mp below)
            exact forest.not_isWithin_siblings siblings' left' (right.trans beside.to_reflTransGen)
          · obtain rfl : p = p' := Option.some.inj (here.symm.trans there')
            obtain rfl := forest.eq_of_siblings there here' right left'
            exact not_sublist_swap (forest.nodup p) siblings siblings'
          · have beside : d.IsBelow first' first :=
              (isBelow_iff_parent here').mpr ((isBelow_iff_parent there').mp below)
            exact forest.not_isWithin_siblings siblings (left'.trans beside.to_reflTransGen) right

/-! ## How far up it goes -/

/-- On the way up from an element no element is passed twice, so that there are no more steps
than the document has elements. -/
theorem exists_rises (within : d.IsWithin e a) : ∃ n ≤ d.elements.length, d.Rises n e a := by
  have passed : ∃ es : List (Ref .element), es.Nodup ∧
      (∀ x ∈ es, d.IsWithin e x ∧ d.contains x = true) ∧ d.Rises es.length e a := by
    induction within using ReflTransGen.head_induction_on with
    | refl => exact ⟨[], List.nodup_nil, fun _ none => (nomatch none), .here a⟩
    | @head e p child _ ih =>
        obtain ⟨es, distinct, met, rises⟩ := ih
        refine ⟨e :: es, List.nodup_cons.mpr ⟨fun again => ?_, distinct⟩, ?_, .step child rises⟩
        · exact forest.acyclic e (TransGen.head' child (met e again).1)
        · intro x listed
          rcases List.mem_cons.mp listed with rfl | later
          · exact ⟨.refl, contains_of_parent child⟩
          · exact ⟨.head child (met x later).1, (met x later).2⟩
  obtain ⟨es, distinct, met, rises⟩ := passed
  exact ⟨es.length, length_le_of_contains distinct fun x listed => (met x listed).2, rises⟩

/-! ## What is listed below an element -/

theorem mem_descendants : e ∈ d.descendants top ↔ d.IsBelow e top := by
  rw [descendants, forest.mem_below_iff]
  constructor
  · rintro ⟨n, -, rises⟩
    exact rises.isBelow
  · intro below
    obtain ⟨n, few, rises⟩ := forest.exists_rises below.to_reflTransGen
    cases rises with
    | here => exact absurd below (forest.acyclic e)
    | step child rest => exact ⟨_, few, .step child rest⟩

end IsForest

end LiveBinding.Document
