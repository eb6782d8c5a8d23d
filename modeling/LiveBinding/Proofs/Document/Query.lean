/-
# LiveBinding.Proofs.Document.Query -- what a selector finds

A selector selects an element below a root when elements can be chosen on the way down from
the root to it, one for each compound and the element itself for the last, each below the
one before and each with what its compound asks for (`Document.Selects`).

`climb` does not try choices: it takes the nearest ancestor for each compound.  That loses
nothing, since whatever lies above a farther ancestor lies above a nearer one too
(`Ascends.of_isWithin`).  So in a forest `query` finds the first element in document order
that is selected, if there is any (`Document.query_first`).
-/
import LiveBinding.Document.Selector
import LiveBinding.Proofs.Document.Forest
import Mathlib.Data.List.Forall2

namespace LiveBinding

set_option autoImplicit false

/-! ## What a compound asks for -/

/-- The tag is the one asked for, or any; the identifier is the one asked for; and all the
classes are there. -/
structure Compound.Matches (c : Compound) (content : Content) : Prop where
  tag : ∀ tag, c.tag = some tag → tag = "*" ∨ tag = content.tag
  id : ∀ id, c.id = some id → content.id = some id
  classes : ∀ name ∈ c.classes, name ∈ content.classes

theorem Compound.fits_iff {c : Compound} {content : Content} :
    c.fits content = true ↔ c.Matches content := by
  obtain ⟨tag, id, classes⟩ := c
  have split : Compound.Matches ⟨tag, id, classes⟩ content ↔
      ((∀ t, tag = some t → t = "*" ∨ t = content.tag) ∧ ∀ i, id = some i → content.id = some i) ∧
        ∀ name ∈ classes, name ∈ content.classes :=
    ⟨fun asked => ⟨⟨asked.tag, asked.id⟩, asked.classes⟩,
      fun asked => ⟨asked.1.1, asked.1.2, asked.2⟩⟩
  rw [split, fits, Bool.and_eq_true, Bool.and_eq_true]
  refine and_congr (and_congr ?_ ?_) ?_
  · cases tag <;> simp
  · cases id <;> simp
  · simp [Content.hasClass]

namespace Text

theorem wordsFrom_eq_nil {current cs : List Char} :
    wordsFrom current cs = [] ↔ current = [] ∧ cs.all isBlank = true := by
  induction cs generalizing current with
  | nil => cases current <;> simp [wordsFrom]
  | cons c rest ih =>
      cases blank : isBlank c <;> cases current <;> simp [wordsFrom, blank, ih]

end Text

namespace Document

open Relation (TransGen ReflTransGen)

def Matches (d : Document) (c : Compound) (e : Ref .element) : Prop :=
  ∃ element, d.get? e = some element ∧ c.Matches element.content

/-- The element lies below `top`, it matches the last compound, and for the others there is a
choice of elements between, each below the one before, that match them in turn. -/
def Selects (d : Document) (top : Ref .element) (compounds : List Compound) (e : Ref .element) :
    Prop :=
  ∃ chosen, (top :: (chosen ++ [e])).Pairwise (fun outer inner => d.IsBelow inner outer) ∧
    List.Forall₂ d.Matches compounds (chosen ++ [e])

/-- Above the element, and below `top`, there are elements that match the compounds, going up. -/
def Ascends (d : Document) (top : Ref .element) : List Compound → Ref .element → Prop
  | [], _ => True
  | wanted :: outer, e =>
      ∃ a, d.IsBelow e a ∧ d.IsBelow a top ∧ d.Matches wanted a ∧ d.Ascends top outer a

variable {d : Document} {top e a p : Ref .element} {wanted : Compound} {outer : List Compound}
  {n steps : Nat}

theorem fits_iff : d.fits wanted e = true ↔ d.Matches wanted e := by
  unfold fits Matches
  cases d.get? e with
  | none => simp
  | some element => simp [Compound.fits_iff]

/-! ## The nearest will do -/

/-- Whatever is chosen above an ancestor can be chosen above what is in its subtree. -/
theorem Ascends.of_isWithin (ascends : d.Ascends top outer a) (within : d.IsWithin e a) :
    d.Ascends top outer e := by
  cases outer with
  | nil => trivial
  | cons wanted outer =>
      obtain ⟨chosen, above, inside, asked, rest⟩ := ascends
      exact ⟨chosen, TransGen.trans_right within above, inside, asked, rest⟩

/-- An ancestor that matches need not be passed over. -/
theorem ascends_parent (child : d.IsChild e p) (inside : d.IsBelow p top) :
    d.Ascends top (wanted :: outer) e ↔
      if d.fits wanted p then d.Ascends top outer p else d.Ascends top (wanted :: outer) p := by
  split
  next fits =>
    constructor
    · rintro ⟨chosen, above, -, -, rest⟩
      exact rest.of_isWithin ((isBelow_iff_parent child).mp above)
    · exact fun rest => ⟨p, .single child, inside, fits_iff.mp fits, rest⟩
  next unfit =>
    constructor
    · rintro ⟨chosen, above, below, asked, rest⟩
      rcases isWithin_iff.mp ((isBelow_iff_parent child).mp above) with rfl | above
      · exact absurd (fits_iff.mpr asked) unfit
      · exact ⟨chosen, above, below, asked, rest⟩
    · exact fun rest => rest.of_isWithin (.single child)

/-- Climbing from the parent of an element on finds whether compounds can be matched above it,
if it may go as far as `top`. -/
theorem IsForest.climb_iff (forest : d.IsForest) (rises : d.Rises n p top) (child : d.IsChild e p)
    (enough : n ≤ steps) (wanted : List Compound) :
    d.climb top steps wanted (some p) = true ↔ d.Ascends top wanted e := by
  induction rises generalizing e steps wanted with
  | here top =>
      cases wanted with
      | nil => simp [climb, Ascends]
      | cons c outer =>
          have stops : d.climb top steps (c :: outer) (some top) = false := by
            cases steps <;> simp [climb]
          rw [stops]
          refine ⟨fun no => (nomatch no), ?_⟩
          rintro ⟨chosen, above, below, -, -⟩
          exact absurd (TransGen.trans_right ((isBelow_iff_parent child).mp above) below)
            (forest.acyclic top)
  | @step n p q top further rest ih =>
      have inside : d.IsBelow p top := TransGen.head' further rest.isWithin
      have apart : p ≠ top := by
        rintro rfl
        exact forest.acyclic p inside
      cases wanted with
      | nil => simp [climb, Ascends]
      | cons c outer =>
          obtain ⟨steps, rfl⟩ : ∃ k, steps = k + 1 := ⟨steps - 1, by omega⟩
          have enough : n ≤ steps := by omega
          rw [ascends_parent child inside, climb, if_neg apart, show d.parent p = some q from further]
          split
          · exact ih further enough outer
          · exact ih further enough (c :: outer)

/-! ## Choices -/

/-- Going up and writing down what is chosen. -/
theorem ascends_iff {inwards : List Compound} :
    d.Ascends top inwards e ∧ d.IsBelow e top ↔
      ∃ chosen, (e :: (chosen ++ [top])).Pairwise d.IsBelow ∧
        List.Forall₂ d.Matches inwards chosen := by
  induction inwards generalizing e with
  | nil =>
      constructor
      · rintro ⟨-, below⟩
        exact ⟨[], by simpa using below, .nil⟩
      · rintro ⟨chosen, order, none⟩
        cases none
        exact ⟨trivial, by simpa using order⟩
  | cons wanted outer ih =>
      constructor
      · rintro ⟨⟨a, above, inside, asked, rest⟩, -⟩
        obtain ⟨chosen, order, matched⟩ := ih.mp ⟨rest, inside⟩
        refine ⟨a :: chosen, List.pairwise_cons.mpr ⟨fun x listed => ?_, order⟩, .cons asked matched⟩
        rcases List.mem_cons.mp listed with rfl | higher
        · exact above
        · exact above.trans ((List.pairwise_cons.mp order).1 x higher)
      · rintro ⟨chosen, order, matched⟩
        cases matched with
        | @cons _ a _ chosen asked matched =>
            obtain ⟨above, order⟩ := List.pairwise_cons.mp order
            obtain ⟨rest, inside⟩ := ih.mpr ⟨chosen, order, matched⟩
            exact ⟨⟨a, above a List.mem_cons_self, inside, asked, rest⟩,
              above top (List.mem_cons_of_mem _ (List.mem_append_right _ List.mem_cons_self))⟩

theorem selects_append_iff {last : Compound} :
    d.Selects top (outer ++ [last]) e ↔
      d.Matches last e ∧ d.Ascends top outer.reverse e ∧ d.IsBelow e top := by
  rw [ascends_iff]
  constructor
  · rintro ⟨chosen, order, matched⟩
    have matched := List.forall₂_reverse_iff.mpr matched
    rw [List.reverse_append, List.reverse_append] at matched
    cases matched with
    | cons asked matched =>
        refine ⟨asked, chosen.reverse, ?_, matched⟩
        have upwards := List.pairwise_reverse.mpr order
        simpa using upwards
  · rintro ⟨asked, chosen, order, matched⟩
    refine ⟨chosen.reverse, ?_, ?_⟩
    · have downwards := List.pairwise_reverse.mpr order
      simpa using downwards
    · have whole : List.Forall₂ d.Matches (last :: outer.reverse) (e :: chosen) := .cons asked matched
      have turned := List.forall₂_reverse_iff.mpr whole
      simpa using turned

/-- A selector of no compounds selects nothing. -/
theorem not_selects_nil : ¬ d.Selects top [] e := by
  rintro ⟨chosen, -, matched⟩
  have lengths := matched.length_eq
  simp at lengths

theorem IsForest.accepts_iff (forest : d.IsForest) (below : d.IsBelow e top)
    (compounds : List Compound) :
    d.accepts top compounds.reverse e = true ↔ d.Selects top compounds e := by
  rcases List.eq_nil_or_concat' compounds with rfl | ⟨outer, last, rfl⟩
  · simp [accepts, not_selects_nil]
  · obtain ⟨p, child, within⟩ := TransGen.head'_iff.mp below
    obtain ⟨n, few, rises⟩ := forest.exists_rises within
    rw [List.reverse_append, List.reverse_singleton, List.singleton_append, accepts,
      Bool.and_eq_true, fits_iff, show d.parent e = some p from child,
      forest.climb_iff rises child few, selects_append_iff]
    exact and_congr_right fun _ => ⟨fun ascends => ⟨ascends, below⟩, And.left⟩

theorem isBelow_of_selects {compounds : List Compound}
    (selected : d.Selects top compounds e) : d.IsBelow e top := by
  obtain ⟨chosen, order, -⟩ := selected
  exact (List.pairwise_cons.mp order).1 e (List.mem_append_right _ List.mem_cons_self)

/-! ## The first one -/

/-- What is found in a list that stands in an order is the first that is looked for. -/
theorem find?_eq_some_iff_first {α : Type} {l : List α} {r : α → α → Prop} {wanted : α → Bool}
    {e : α} (ordered : l.Pairwise r) (asymm : ∀ a b, r a b → ¬ r b a) :
    l.find? wanted = some e ↔
      (e ∈ l ∧ wanted e = true) ∧ ∀ other ∈ l, wanted other = true → other = e ∨ r e other := by
  have first : ∀ {e}, l.find? wanted = some e →
      ∀ other ∈ l, wanted other = true → other = e ∨ r e other := by
    intro e found other listed good
    obtain ⟨-, before, after, rfl, bad⟩ := List.find?_eq_some_iff_append.mp found
    rcases List.mem_append.mp listed with early | late
    · have no := bad other early
      rw [good] at no
      cases no
    · rcases List.mem_cons.mp late with same | late
      · exact Or.inl same
      · exact Or.inr ((List.pairwise_cons.mp (List.pairwise_append.mp ordered).2.1).1 other late)
  constructor
  · exact fun found => ⟨⟨List.mem_of_find?_eq_some found, List.find?_some found⟩, first found⟩
  · rintro ⟨⟨listed, good⟩, least⟩
    cases found : l.find? wanted with
    | none => exact absurd good (List.find?_eq_none.mp found e listed)
    | some e' =>
        rcases least e' (List.mem_of_find?_eq_some found) (List.find?_some found) with same | later
        · rw [same]
        · rcases first found e listed good with same | later'
          · rw [same]
          · exact absurd later (asymm _ _ later')

theorem readSelector_eq_nil {selector : String} :
    readSelector selector = [] ↔ Text.isBlankText selector = true := by
  simp [readSelector, Text.words, Text.wordsFrom_eq_nil, Text.isBlankText]

theorem query_eq_find? (top : Ref .element) (selector : String) :
    d.query top selector =
      (d.descendants top).find? (d.accepts top (readSelector selector).reverse) := by
  simp only [query]
  split
  next blank =>
    rw [List.isEmpty_iff.mp blank, eq_comm, List.find?_eq_none]
    exact fun _ _ no => nomatch no
  next => rfl

/-- In a forest a selector finds the first element in document order that it selects below the
root, and nothing just when it is blank or selects nothing there. -/
theorem query_first (forest : d.IsForest) (top : Ref .element) (selector : String) :
    (∀ e, d.query top selector = some e ↔
      d.Selects top (readSelector selector) e ∧
        ∀ other, d.Selects top (readSelector selector) other → other = e ∨ d.Precedes e other) ∧
    (d.query top selector = none ↔
      Text.isBlankText selector = true ∨ ∀ e, ¬ d.Selects top (readSelector selector) e) := by
  have candidate : ∀ e, d.Selects top (readSelector selector) e ↔
      e ∈ d.descendants top ∧ d.accepts top (readSelector selector).reverse e = true := by
    intro e
    rw [forest.mem_descendants]
    constructor
    · intro selected
      have below := isBelow_of_selects selected
      exact ⟨below, (forest.accepts_iff below _).mpr selected⟩
    · exact fun ⟨below, accepted⟩ => (forest.accepts_iff below _).mp accepted
  constructor
  · intro e
    rw [query_eq_find?, find?_eq_some_iff_first (forest.pairwise_descendants top)
      fun _ _ => forest.not_precedes_of_precedes]
    simp only [candidate, and_imp]
  · rw [query_eq_find?, List.find?_eq_none]
    simp only [candidate, ← readSelector_eq_nil, not_and]
    constructor
    · exact Or.inr
    · rintro (blank | nothing)
      · rw [blank]
        exact fun _ _ no => nomatch no
      · exact nothing

namespace Sample

/-- A section in a section in a section, each with one of two classes, and a word inside. -/
def nested : Document :=
  [.create "section", .create "section", .create "section", .create "section", .create "b",
    .create "b", .toggleClass ⟨1⟩ "odd" true, .toggleClass ⟨2⟩ "even" true,
    .toggleClass ⟨3⟩ "odd" true, .toggleClass ⟨4⟩ "even" true, .appendChild root ⟨1⟩,
    .appendChild ⟨1⟩ ⟨6⟩, .appendChild ⟨1⟩ ⟨2⟩, .appendChild ⟨2⟩ ⟨3⟩, .appendChild ⟨3⟩ ⟨4⟩,
    .appendChild ⟨4⟩ ⟨5⟩].foldl apply empty

theorem isForest_nested : nested.IsForest :=
  .of_sorted (IsMade.empty.edits (by decide +kernel)).isLinked (by decide +kernel)

end Sample

open Document.Sample in
theorem query_nested :
    nested.IsForest ∧ nested.Selects ⟨1⟩ (readSelector ".even .odd b") ⟨5⟩ ∧
      (∀ other, nested.Selects ⟨1⟩ (readSelector "b") other →
        other = ⟨6⟩ ∨ nested.Precedes ⟨6⟩ other) ∧
      (∀ e, ¬ nested.Selects ⟨1⟩ (readSelector ".odd .even .odd b") e) ∧
      nested.query ⟨1⟩ " " = none := by
  have found : nested.query ⟨1⟩ ".even .odd b" = some ⟨5⟩ := by decide +kernel
  have first : nested.query ⟨1⟩ "b" = some ⟨6⟩ := by decide +kernel
  have missed : nested.query ⟨1⟩ ".odd .even .odd b" = none := by decide +kernel
  have unwritten : Text.isBlankText ".odd .even .odd b" ≠ true := by decide +kernel
  have blank : Text.isBlankText " " = true := by decide +kernel
  exact ⟨isForest_nested, (((query_first isForest_nested ⟨1⟩ _).1 ⟨5⟩).mp found).1,
    (((query_first isForest_nested ⟨1⟩ _).1 ⟨6⟩).mp first).2,
    ((query_first isForest_nested ⟨1⟩ _).2.mp missed).resolve_left unwritten,
    (query_first isForest_nested ⟨1⟩ _).2.mpr (Or.inl blank)⟩

end Document

end LiveBinding
