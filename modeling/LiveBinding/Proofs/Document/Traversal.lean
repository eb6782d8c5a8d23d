/-
# LiveBinding.Proofs.Document.Traversal -- going through a forest, up and down

Everything that goes through a document follows its links and has a bound: a listing goes
down so many levels, a selector climbs so many steps, the text of an element has so many levels
inside.  In a forest none of these bounds is ever met (`Document.IsTree`, `IsForest.isTree`):

* on the way up no element is passed twice, so the way ends;
* what lies below an element is listed, each element once, however deep the listing may go
  (`nodup_descendants`);
* the text of an element is its tags and those of what lies below it, in the order of a tour
  that goes into every element once (`markupAt_eq_tour`, `opened_tour`).
-/
import LiveBinding.Document.Markup
import LiveBinding.Proofs.Document.Query

namespace LiveBinding.Document

set_option autoImplicit false

open Relation (TransGen)

/-- A tag in the text of a document.  If an element has no children, its inside goes with its
opening tag. -/
inductive Tag where
  | opening (e : Ref .element)
  | closing (e : Ref .element)

def Tag.opened? : Nat × Tag → Option (Ref .element)
  | (_, .opening e) => some e
  | (_, .closing _) => none

/-- The tags of an element and of what is below it, `depth` levels of them, with how far they
are indented. -/
def tour (d : Document) : Nat → Nat → Ref .element → List (Nat × Tag)
  | 0, _, _ => []
  | depth + 1, indent, e =>
      (indent, .opening e) ::
        ((d.children e).flatMap (tour d depth (indent + 1)) ++ [(indent, .closing e)])

/-- How a tag is written. -/
def writeTag (d : Document) : Nat × Tag → String
  | (indent, .opening e) =>
      match d.get? e with
      | none => ""
      | some element =>
          Text.repeated indent "  " ++ openTag element.content ++
            if element.children.isEmpty then inside element.content else "\n"
  | (indent, .closing e) =>
      match d.get? e with
      | none => ""
      | some element =>
          (if element.children.isEmpty then "" else Text.repeated indent "  ") ++
            "</" ++ element.content.tag ++ ">\n"

/-- Nothing lies below itself.  So whoever climbs comes to an end, and whoever goes down comes
by everything below once, and to an end as well. -/
structure IsTree (d : Document) : Prop where
  acyclic : ∀ e, ¬ d.IsBelow e e
  climbs : ∀ e, ∃ n ≤ d.elements.length, ∃ top, d.Rises n e top ∧ d.parent top = none
  /-- Searching and removing go along this list. -/
  lists : ∀ top, (d.descendants top).Nodup ∧ ∀ e, e ∈ d.descendants top ↔ d.IsBelow e top
  /-- Writing goes along the tour. -/
  writes : ∀ top,
    d.markup top = String.join ((d.tour (d.elements.length + 1) 0 top).map d.writeTag) ∧
      (d.tour (d.elements.length + 1) 0 top).filterMap Tag.opened? = top :: d.descendants top
  /-- No traversal would go on if it could go farther. -/
  ends : ∀ depth, d.elements.length ≤ depth → ∀ top,
    d.below depth top = d.descendants top ∧
      d.markupAt (depth + 1) 0 top = d.markup top ∧
      ∀ wanted e, d.climb top depth wanted (d.parent e) =
        d.climb top d.elements.length wanted (d.parent e)

variable {d : Document} {e a top : Ref .element} {n m depth : Nat}

/-! ## The tour -/

theorem join_flatMap {α : Type} (l : List α) (f : α → List String) :
    String.join (l.flatMap f) = String.join (l.map fun x => String.join (f x)) := by
  induction l with
  | nil => rfl
  | cons x rest ih =>
      rw [List.flatMap_cons, String.join_append, List.map_cons, String.join_cons, ih]

/-- The text of an element is written tag by tag. -/
theorem markupAt_eq_tour (depth indent : Nat) (e : Ref .element) :
    d.markupAt depth indent e = String.join ((d.tour depth indent e).map d.writeTag) := by
  induction depth generalizing indent e with
  | zero => rfl
  | succ depth ih =>
      rw [tour, List.map_cons, List.map_append, List.map_flatMap, String.join_cons,
        String.join_append, join_flatMap, children_eq, markupAt]
      simp only [List.map_cons, List.map_nil, writeTag, ← ih]
      cases found : d.get? e with
      | none => rfl
      | some element =>
          cases childless : element.children.isEmpty with
          | true =>
              have nothing : element.children = [] := List.isEmpty_iff.mp childless
              simp [nothing, String.append_assoc]
          | false => simp [childless, String.append_assoc]

theorem opened_tour (depth indent : Nat) (e : Ref .element) :
    (d.tour (depth + 1) indent e).filterMap Tag.opened? = e :: d.below depth e := by
  induction depth generalizing indent e with
  | zero => simp [tour, Tag.opened?, below]
  | succ depth ih =>
      rw [tour, below, List.filterMap_cons, List.filterMap_append, List.filterMap_flatMap]
      simp [Tag.opened?, ih]

/-- Where the tours of the children are the same, the tour is. -/
theorem tour_congr {depth' : Nat} (indent : Nat)
    (same : ∀ c ∈ d.children top, d.tour depth (indent + 1) c = d.tour depth' (indent + 1) c) :
    d.tour (depth + 1) indent top = d.tour (depth' + 1) indent top := by
  rw [tour, tour, List.flatMap_congr same]

theorem IsLinked.rises_of_child {c : Ref .element} (linked : d.IsLinked)
    (listed : c ∈ d.children top) (rises : d.Rises m e c) : d.Rises (m + 1) e top :=
  rises_succ_iff.mpr ⟨c, rises, (linked.mem_children top c).mp listed⟩

/-- A tour that may go as deep as there is something below goes as far as any. -/
theorem IsLinked.tour_of_bounded (linked : d.IsLinked)
    (bounded : ∀ m e, d.Rises m e top → m ≤ n) (enough : n < depth) (indent : Nat) :
    d.tour depth indent top = d.tour (n + 1) indent top := by
  induction n generalizing top depth indent with
  | zero =>
      obtain ⟨depth, rfl⟩ : ∃ k, depth = k + 1 := ⟨depth - 1, by omega⟩
      refine tour_congr indent fun c listed => ?_
      have low := bounded 1 c (linked.rises_of_child listed (.here c))
      omega
  | succ n ih =>
      obtain ⟨depth, rfl⟩ : ∃ k, depth = k + 1 := ⟨depth - 1, by omega⟩
      refine tour_congr indent fun c listed => ?_
      have lower : ∀ m e, d.Rises m e c → m ≤ n := fun m e rises =>
        Nat.le_of_succ_le_succ (bounded (m + 1) e (linked.rises_of_child listed rises))
      exact ih lower (by omega) (indent + 1)

/-! ## The climb -/

theorem climb_none (steps : Nat) (wanted : List Compound) :
    d.climb top steps wanted none = wanted.isEmpty := by
  cases wanted with
  | nil => rw [climb]; rfl
  | cons c outer => cases steps <;> rfl

/-- A climb that may take as many steps as there are up to an element without a parent ends as
any. -/
theorem climb_of_rises (rises : d.Rises n e a) (alone : d.parent a = none) {steps steps' : Nat}
    (enough : n < steps) (enough' : n < steps') (wanted : List Compound) :
    d.climb top steps wanted (some e) = d.climb top steps' wanted (some e) := by
  induction rises generalizing wanted steps steps' with
  | here e =>
      obtain ⟨k, rfl⟩ : ∃ k, steps = k + 1 := ⟨steps - 1, by omega⟩
      obtain ⟨k', rfl⟩ : ∃ k', steps' = k' + 1 := ⟨steps' - 1, by omega⟩
      cases wanted with
      | nil => simp [climb]
      | cons c outer => simp only [climb, alone, climb_none]
  | @step n e p a child rest ih =>
      obtain ⟨k, rfl⟩ : ∃ k, steps = k + 1 := ⟨steps - 1, by omega⟩
      obtain ⟨k', rfl⟩ : ∃ k', steps' = k' + 1 := ⟨steps' - 1, by omega⟩
      have onwards : ∀ wanted, d.climb top k wanted (some p) = d.climb top k' wanted (some p) :=
        ih alone (by omega) (by omega)
      cases wanted with
      | nil => simp [climb]
      | cons c outer => simp only [climb, show d.parent e = some p from child, onwards]

namespace IsForest

variable (forest : d.IsForest)

include forest

/-- There is one way up from an element to another. -/
theorem rises_unique (one : d.Rises m e a) (other : d.Rises n e a) : m = n := by
  induction one generalizing n with
  | here e =>
      cases other with
      | here => rfl
      | step child rest => exact absurd (TransGen.head' child rest.isWithin) (forest.acyclic e)
  | step child rest ih =>
      cases other with
      | here => exact absurd (TransGen.head' child rest.isWithin) (forest.acyclic _)
      | step child' rest' =>
          cases child.symm.trans child'
          rw [ih rest']

theorem rises_le (rises : d.Rises n e a) : n ≤ d.elements.length := by
  obtain ⟨m, few, rises'⟩ := forest.exists_rises rises.isWithin
  exact forest.rises_unique rises rises' ▸ few

/-- The way up ends before it has as many steps as there are elements. -/
theorem exists_top (e : Ref .element) :
    ∃ n ≤ d.elements.length, ∃ top, d.Rises n e top ∧ d.parent top = none := by
  by_contra endless
  have higher : ∀ n, ∃ a, d.Rises n e a := by
    intro n
    induction n with
    | zero => exact ⟨e, .here e⟩
    | succ n ih =>
        obtain ⟨a, rises⟩ := ih
        cases child : d.parent a with
        | none => exact absurd ⟨n, forest.rises_le rises, a, rises, child⟩ endless
        | some p => exact ⟨p, rises_succ_iff.mpr ⟨a, rises, child⟩⟩
  obtain ⟨a, rises⟩ := higher (d.elements.length + 1)
  exact Nat.not_succ_le_self _ (forest.rises_le rises)

theorem nodup_descendants (top : Ref .element) : (d.descendants top).Nodup := by
  refine (forest.pairwise_descendants top).imp fun order same => ?_
  subst same
  exact forest.not_precedes_of_precedes order order

theorem tour_of_le (enough : d.elements.length ≤ depth) (indent : Nat) (top : Ref .element) :
    d.tour (depth + 1) indent top = d.tour (d.elements.length + 1) indent top :=
  forest.tour_of_bounded (fun _ _ => forest.rises_le) (Nat.lt_succ_of_le enough) indent

theorem climb_of_le (enough : d.elements.length ≤ depth) (top e : Ref .element)
    (wanted : List Compound) :
    d.climb top depth wanted (d.parent e) = d.climb top d.elements.length wanted (d.parent e) := by
  cases child : d.parent e with
  | none => rw [climb_none, climb_none]
  | some p =>
      obtain ⟨n, -, a, rises, alone⟩ := forest.exists_top p
      have few : n + 1 ≤ d.elements.length := forest.rises_le (.step child rises)
      exact climb_of_rises rises alone (by omega) few wanted

theorem isTree : d.IsTree where
  acyclic := forest.acyclic
  climbs := forest.exists_top
  lists top := ⟨forest.nodup_descendants top, fun _ => forest.mem_descendants⟩
  writes top := ⟨markupAt_eq_tour _ _ _, opened_tour _ _ _⟩
  ends depth enough top := by
    have tours := forest.tour_of_le enough 0 top
    refine ⟨?_, ?_, fun wanted e => forest.climb_of_le enough top e wanted⟩
    · have opened := congrArg (List.filterMap Tag.opened?) tours
      rw [opened_tour, opened_tour] at opened
      exact (List.cons.inj opened).2
    · rw [markupAt_eq_tour, tours, ← markupAt_eq_tour, markup]

end IsForest

end LiveBinding.Document
