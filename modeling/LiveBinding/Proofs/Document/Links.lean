/-
# LiveBinding.Proofs.Document.Links -- parents and children agree

Where an element stands is written down twice: it names its parent, and its parent lists
it.  Appending, moving and removing edit both sides.  In a document that is made by changes
of elements that it has (`Document.IsMade`) the two agree (`Document.IsLinked`), no element
has a class twice, and no two listeners of the document share an identifier
(`Document.consistent_of_made`).
-/
import LiveBinding.Proofs.Document.Listeners
import Mathlib.Data.List.Nodup

namespace LiveBinding.Document

set_option autoImplicit false

/-- The elements that a change is about. -/
def Edit.elements : Edit → List (Ref .element)
  | .create _ => []
  | .appendChild parent child => [parent, child]
  | .setId e _ => [e]
  | .setAttribute e _ _ => [e]
  | .setProperty e _ _ => [e]
  | .toggleClass e _ _ => [e]
  | .setStyle e _ _ => [e]
  | .setHtml e _ => [e]
  | .setText e _ => [e]
  | .setVisible e _ => [e]
  | .setValue e _ => [e]
  | .removeListener e _ => [e]
  | .remove e => [e]

/-- The document was empty at first, and only elements that it had were ever changed. -/
inductive IsMade : Document → Prop where
  | empty : IsMade empty
  | edited {d : Document} (edit : Edit) (made : IsMade d)
      (there : ∀ e ∈ edit.elements, d.contains e = true) : IsMade (d.apply edit)
  | listened {d : Document} (e : Ref .element) (reaction : EditReaction) (made : IsMade d)
      (there : d.contains e = true) : IsMade (d.addListener e reaction)

/-- Each change is about elements that the document has when its turn comes. -/
def knows (d : Document) : List Edit → Bool
  | [] => true
  | edit :: rest => edit.elements.all d.contains && (d.apply edit).knows rest

theorem IsMade.edits {d : Document} {edits : List Edit} (made : d.IsMade)
    (known : d.knows edits = true) : (edits.foldl apply d).IsMade := by
  induction edits generalizing d with
  | nil => exact made
  | cons edit rest ih =>
      rw [knows, Bool.and_eq_true, List.all_eq_true] at known
      exact ih (.edited edit made known.1) known.2

/-- An element lists exactly those whose parent it is, each of them once. -/
structure IsLinked (d : Document) : Prop where
  mem_children : ∀ p c, c ∈ d.children p ↔ d.parent c = some p
  nodup : ∀ p, (d.children p).Nodup

def listenerIds (d : Document) : List Nat :=
  d.elements.flatMap fun element => element.listeners.map (·.id)

/-- What is written down twice agrees, and what names a thing names one thing. -/
structure IsConsistent (d : Document) : Prop where
  linked : ∀ p c, c ∈ d.children p ↔ d.parent c = some p
  once : ∀ p c, d.parent c = some p → (d.children p).count c = 1
  classes : ∀ e element, d.get? e = some element → element.content.classes.Nodup
  identifiers : d.listenerIds.Nodup
  numbered : ∀ id ∈ d.listenerIds, id < d.nextListener

variable {d d' : Document} {e p c q : Ref .element}

/-! ## Where elements stand -/

theorem get?_modify (f : Element → Element) :
    (d.modify e f).get? q = if q = e then (d.get? q).map f else d.get? q := by
  by_cases same : q = e
  · subst same
    rw [get?_modify_self, if_pos rfl]
  · rw [get?_modify_ne same, if_neg same]

theorem exists_get? (there : d.contains e = true) : ∃ element, d.get? e = some element := by
  simp only [contains, decide_eq_true_eq] at there
  exact ⟨_, List.getElem?_eq_getElem there⟩

theorem children_eq (d : Document) (e : Ref .element) :
    d.children e = (d.get? e).elim [] (·.children) := by
  unfold children
  cases d.get? e with
  | none => rfl
  | some element => rfl

theorem parent_modify_of_same {f : Element → Element}
    (same : ∀ element, (f element).parent = element.parent) :
    (d.modify e f).parent q = d.parent q := by
  rw [parent, get?_modify, parent]
  split
  · cases d.get? q with
    | none => rfl
    | some element => exact same element
  · rfl

theorem children_modify_of_same {f : Element → Element}
    (same : ∀ element, (f element).children = element.children) :
    (d.modify e f).children q = d.children q := by
  rw [children_eq, get?_modify, children_eq]
  split
  · cases d.get? q with
    | none => rfl
    | some element => exact same element
  · rfl

theorem parent_modify_parent (there : d.contains e = true) (value : Option (Ref .element)) :
    (d.modify e fun element => { element with parent := value }).parent q =
      if q = e then value else d.parent q := by
  obtain ⟨element, found⟩ := exists_get? there
  rw [parent, get?_modify]
  split
  next same => rw [same, found]; rfl
  next => rfl

theorem children_modify_children (there : d.contains e = true)
    (f : List (Ref .element) → List (Ref .element)) :
    (d.modify e fun element => { element with children := f element.children }).children q =
      if q = e then f (d.children q) else d.children q := by
  obtain ⟨element, found⟩ := exists_get? there
  rw [children_eq, get?_modify, children_eq]
  split
  next same => rw [same, found]; rfl
  next => rfl

@[simp] theorem contains_modify (f : Element → Element) :
    (d.modify e f).contains q = d.contains q := by
  simp [contains, modify]

theorem contains_of_parent (child : d.parent c = some p) : d.contains c = true := by
  obtain ⟨element, found, -⟩ := Option.bind_eq_some_iff.mp child
  simpa [contains] using (List.getElem?_eq_some_iff.mp found).1

theorem contains_of_mem_children (listed : c ∈ d.children p) : d.contains p = true := by
  unfold children at listed
  split at listed
  next element found => simpa [contains] using (List.getElem?_eq_some_iff.mp found).1
  next => cases listed

theorem IsLinked.contains_parent (linked : d.IsLinked) (child : d.parent c = some p) :
    d.contains p = true :=
  contains_of_mem_children ((linked.mem_children p c).mpr child)

/-! ## Detaching and appending -/

/-- A detached element has no parent. -/
theorem parent_detach : (d.detach c).parent q = if q = c then none else d.parent q := by
  unfold detach
  split
  next alone =>
    split
    next same => rw [same, alone]
    next => rfl
  next p child =>
    rw [parent_modify_of_same, parent_modify_parent (contains_of_parent child)]
    exact fun _ => rfl

/-- Nobody lists a detached element. -/
theorem IsLinked.children_detach (linked : d.IsLinked) :
    (d.detach c).children q = (d.children q).filter (· ≠ c) := by
  have others : d.parent c ≠ some q → (d.children q).filter (· ≠ c) = d.children q := by
    intro apart
    rw [List.filter_eq_self]
    intro other listed
    refine decide_eq_true fun same => apart ?_
    rw [← same]
    exact (linked.mem_children q other).mp listed
  unfold detach
  split
  next alone =>
    rw [others]
    rw [alone]
    exact fun no => nomatch no
  next p child =>
    have there := linked.contains_parent child
    rw [children_modify_children (by rwa [contains_modify]) (·.filter (· ≠ c)),
      children_modify_of_same]
    · split
      · rfl
      next apart =>
        rw [others]
        rw [child]
        exact fun same => apart (Option.some.inj same).symm
    · exact fun _ => rfl

@[simp] theorem contains_detach : (d.detach c).contains q = d.contains q := by
  unfold detach
  split
  · rfl
  · rw [contains_modify, contains_modify]

theorem parent_appendChild (there : d.contains c = true) :
    (d.appendChild p c).parent q = if q = c then some p else d.parent q := by
  rw [appendChild, parent_modify_of_same, parent_modify_parent (by rwa [contains_detach]),
    parent_detach]
  · split <;> rfl
  · exact fun _ => rfl

/-- An element that is appended leaves the place where it was and comes last in its new one. -/
theorem IsLinked.children_appendChild (linked : d.IsLinked) (there : d.contains p = true) :
    (d.appendChild p c).children q =
      (d.children q).filter (· ≠ c) ++ if q = p then [c] else [] := by
  rw [appendChild,
    children_modify_children (by rwa [contains_modify, contains_detach]) (· ++ [c]),
    children_modify_of_same, linked.children_detach]
  · split
    · rfl
    · rw [List.append_nil]
  · exact fun _ => rfl

/-! ## What changes keep linked -/

theorem get?_empty : empty.get? q = if q.index = 0 then some (.ofTag rootTag) else none := by
  simp only [get?, empty, List.getElem?_singleton]

theorem parent_empty : empty.parent q = none := by
  rw [parent, get?_empty]
  split <;> rfl

theorem children_empty : empty.children q = [] := by
  rw [children_eq, get?_empty]
  split <;> rfl

theorem isLinked_empty : empty.IsLinked where
  mem_children p c := by simp [children_empty, parent_empty]
  nodup p := by simp [children_empty]

/-- Whoever has the parents and the children of a linked document is linked. -/
theorem IsLinked.of_same (linked : d.IsLinked) (parents : ∀ e, d'.parent e = d.parent e)
    (children : ∀ e, d'.children e = d.children e) : d'.IsLinked where
  mem_children p c := by rw [parents, children, linked.mem_children]
  nodup p := by rw [children]; exact linked.nodup p

theorem IsLinked.modify (linked : d.IsLinked) {f : Element → Element}
    (parent : ∀ element, (f element).parent = element.parent)
    (children : ∀ element, (f element).children = element.children) : (d.modify e f).IsLinked :=
  linked.of_same (fun _ => parent_modify_of_same parent) fun _ => children_modify_of_same children

theorem get?_create (tag : String) :
    (d.create tag).get? q = if q = d.fresh then some (.ofTag tag) else d.get? q := by
  obtain ⟨index⟩ := q
  simp only [get?, create, fresh, Ref.mk.injEq, List.getElem?_append, List.getElem?_singleton]
  rcases Nat.lt_trichotomy index d.elements.length with before | at_ | after
  · rw [if_pos before, if_neg (Nat.ne_of_lt before)]
  · simp [at_]
  · rw [if_neg (by omega), if_neg (by omega), if_neg (by omega), List.getElem?_eq_none (by omega)]

theorem get?_fresh (d : Document) : d.get? d.fresh = none :=
  List.getElem?_eq_none (Nat.le_refl _)

theorem parent_create (tag : String) : (d.create tag).parent q = d.parent q := by
  rw [parent, get?_create, parent]
  split
  next new => rw [new, get?_fresh]; rfl
  next => rfl

theorem children_create (tag : String) : (d.create tag).children q = d.children q := by
  rw [children_eq, get?_create, children_eq]
  split
  next new => rw [new, get?_fresh]; rfl
  next => rfl

theorem IsLinked.create (linked : d.IsLinked) (tag : String) : (d.create tag).IsLinked :=
  linked.of_same (fun _ => parent_create tag) fun _ => children_create tag

theorem IsLinked.detach (linked : d.IsLinked) : (d.detach c).IsLinked where
  mem_children p other := by
    rw [linked.children_detach, parent_detach, List.mem_filter, linked.mem_children]
    by_cases same : other = c <;> simp [same]
  nodup p := by
    rw [linked.children_detach]
    exact (linked.nodup p).filter _

theorem IsLinked.appendChild (linked : d.IsLinked) (parent : d.contains p = true)
    (child : d.contains c = true) : (d.appendChild p c).IsLinked where
  mem_children q other := by
    rw [linked.children_appendChild parent, parent_appendChild child, List.mem_append,
      List.mem_filter, linked.mem_children]
    by_cases same : other = c <;> by_cases here : q = p <;> grind
  nodup q := by
    rw [linked.children_appendChild parent]
    refine ((linked.nodup q).filter _).append (by split <;> simp) ?_
    intro other before last
    have apart : other ≠ c := of_decide_eq_true (List.mem_filter.mp before).2
    split at last
    · exact apart (List.mem_singleton.mp last)
    · cases last

theorem IsLinked.silenced (es : List (Ref .element)) (linked : d.IsLinked) :
    (es.foldl silence d).IsLinked := by
  induction es generalizing d with
  | nil => exact linked
  | cons e rest ih =>
      apply ih
      apply linked.modify
      · exact fun _ => rfl
      · exact fun _ => rfl

theorem IsLinked.remove (linked : d.IsLinked) : (d.remove c).IsLinked :=
  linked.detach.silenced _

theorem IsLinked.apply (linked : d.IsLinked) (edit : Edit)
    (there : ∀ e ∈ edit.elements, d.contains e = true) : (d.apply edit).IsLinked := by
  cases edit with
  | create tag => exact linked.create tag
  | appendChild p c =>
      exact linked.appendChild (there p List.mem_cons_self)
        (there c (List.mem_cons_of_mem _ List.mem_cons_self))
  | remove e => exact linked.remove
  | _ => exact linked.modify (fun _ => rfl) fun _ => rfl

theorem IsLinked.addListener (linked : d.IsLinked) (e : Ref .element) (reaction : EditReaction) :
    (d.addListener e reaction).IsLinked := by
  have added := linked.modify (e := e)
    (f := fun element =>
      { element with listeners := element.listeners ++ [⟨d.nextListener, reaction⟩] })
    (fun _ => rfl) fun _ => rfl
  exact added.of_same (fun _ => rfl) fun _ => rfl

theorem IsMade.isLinked (made : d.IsMade) : d.IsLinked := by
  induction made with
  | empty => exact isLinked_empty
  | edited edit _ there ih => exact ih.apply edit there
  | listened e reaction _ _ ih => exact ih.addListener e reaction

/-! ## Classes and identifiers -/

structure IsTidy (f : Element → Element) : Prop where
  classes : ∀ element, element.content.classes.Nodup → (f element).content.classes.Nodup
  listeners : ∀ element, (f element).listeners.Sublist element.listeners

theorem isTidy_amend {f : Content → Content}
    (keeps : ∀ content, content.classes.Nodup → (f content).classes.Nodup) :
    IsTidy fun element => { element with content := f element.content } :=
  ⟨fun element => keeps element.content, fun _ => .refl _⟩

/-- Moving an element is tidy. -/
theorem isTidy_of_same {f : Element → Element}
    (content : ∀ element, (f element).content = element.content)
    (listeners : ∀ element, (f element).listeners = element.listeners) : IsTidy f :=
  ⟨fun element before => by rwa [content], fun element => by rw [listeners]⟩

theorem nodup_toggleClass (name : String) (enabled : Bool) {content : Content}
    (distinct : content.classes.Nodup) : (content.toggleClass name enabled).classes.Nodup := by
  unfold Content.toggleClass
  split
  · split
    · exact distinct
    next absent =>
      have new : name ∉ content.classes := by simpa [Content.hasClass] using absent
      refine distinct.append (List.nodup_singleton name) fun other before last => ?_
      exact new (List.mem_singleton.mp last ▸ before)
  · exact distinct.filter _

theorem classes_setAttribute (name : String) (value : Option String) (content : Content) :
    (content.setAttribute name value).classes = content.classes := by
  cases value with
  | none => rfl
  | some value => rfl

theorem classes_setStyle (name value : String) (content : Content) :
    (content.setStyle name value).classes = content.classes := by
  unfold Content.setStyle
  split <;> rfl

/-- A change of a document creates an element or changes elements, and that tidily. -/
theorem apply_of_tidy {P : Document → Prop} (create : ∀ d tag, P d → P (d.create tag))
    (modify : ∀ d e f, IsTidy f → P d → P (d.modify e f)) (edit : Edit) (before : P d) :
    P (d.apply edit) := by
  have moved : ∀ d e (f : Element → Element), (∀ element, (f element).content = element.content) →
      (∀ element, (f element).listeners = element.listeners) → P d → P (d.modify e f) :=
    fun d e f content listeners => modify d e f (isTidy_of_same content listeners)
  have detached : ∀ d c, P d → P (d.detach c) := by
    intro d c before
    unfold detach
    split
    · exact before
    · exact moved _ _ _ (fun _ => rfl) (fun _ => rfl) (moved _ _ _ (fun _ => rfl) (fun _ => rfl) before)
  have silenced : ∀ (es : List (Ref .element)) d, P d → P (es.foldl silence d) := by
    intro es
    induction es with
    | nil => exact fun _ => id
    | cons e rest ih =>
        exact fun d before => ih _ (modify d e _ ⟨fun _ => id, fun _ => List.nil_sublist _⟩ before)
  cases edit with
  | create tag => exact create d tag before
  | appendChild p c =>
      exact moved _ _ _ (fun _ => rfl) (fun _ => rfl)
        (moved _ _ _ (fun _ => rfl) (fun _ => rfl) (detached d c before))
  | toggleClass e name enabled =>
      exact modify d e _ (isTidy_amend fun _ => nodup_toggleClass name enabled) before
  | setAttribute e name value =>
      refine modify d e _ (isTidy_amend fun content distinct => ?_) before
      rwa [classes_setAttribute]
  | setStyle e name value =>
      refine modify d e _ (isTidy_amend fun content distinct => ?_) before
      rwa [classes_setStyle]
  | removeListener e listener =>
      exact modify d e _ ⟨fun _ => id, fun _ => List.filter_sublist⟩ before
  | remove e => exact silenced _ _ (detached d e before)
  | _ => exact modify d _ _ (isTidy_amend fun _ => id) before

def HasDistinctClasses (d : Document) : Prop :=
  ∀ e element, d.get? e = some element → element.content.classes.Nodup

theorem HasDistinctClasses.modify (distinct : d.HasDistinctClasses) {f : Element → Element}
    (keeps : ∀ element, element.content.classes.Nodup → (f element).content.classes.Nodup) :
    (d.modify e f).HasDistinctClasses := by
  intro q element found
  rw [get?_modify] at found
  split at found
  · obtain ⟨old, was, rfl⟩ := Option.map_eq_some_iff.mp found
    exact keeps old (distinct q old was)
  · exact distinct q element found

theorem HasDistinctClasses.create (distinct : d.HasDistinctClasses) (tag : String) :
    (d.create tag).HasDistinctClasses := by
  intro q element found
  rw [get?_create] at found
  split at found
  · cases found
    exact List.nodup_nil
  · exact distinct q element found

theorem IsMade.hasDistinctClasses (made : d.IsMade) : d.HasDistinctClasses := by
  induction made with
  | empty =>
      intro e element found
      rw [get?_empty] at found
      split at found
      · cases found
        exact List.nodup_nil
      · cases found
  | edited edit _ _ ih =>
      exact apply_of_tidy (fun _ tag before => before.create tag)
        (fun _ _ _ tidy before => before.modify tidy.classes) edit ih
  | listened e reaction _ _ ih =>
      intro q element found
      refine ih.modify (e := e) ?_ q element found
      exact fun _ => id

theorem listenerIds_create (tag : String) : (d.create tag).listenerIds = d.listenerIds := by
  simp [listenerIds, create, Element.ofTag]

/-- A tidy change takes identifiers off the document, or none. -/
theorem listenerIds_modify {f : Element → Element}
    (fewer : ∀ element, (f element).listeners.Sublist element.listeners) :
    (d.modify e f).listenerIds.Sublist d.listenerIds := by
  simp only [listenerIds, modify]
  rcases Nat.lt_or_ge e.index d.elements.length with inside | outside
  · rw [List.modify_eq_take_cons_drop inside]
    conv => rhs; rw [← List.take_append_drop e.index d.elements, List.drop_eq_getElem_cons inside]
    simp only [List.flatMap_append, List.flatMap_cons]
    exact .append (.refl _) (((fewer _).map _).append (.refl _))
  · rw [List.modify_eq_self outside]

/-- Adding a listener adds the next identifier. -/
theorem listenerIds_addListener (there : d.contains e = true) (reaction : EditReaction) :
    (d.addListener e reaction).listenerIds.Perm (d.nextListener :: d.listenerIds) := by
  have inside : e.index < d.elements.length := by simpa [contains] using there
  simp only [listenerIds, addListener, modify]
  rw [List.modify_eq_take_cons_drop inside]
  conv => rhs; rw [← List.take_append_drop e.index d.elements, List.drop_eq_getElem_cons inside]
  simp only [List.flatMap_append, List.flatMap_cons, List.map_append, List.map_cons, List.map_nil,
    List.append_assoc, List.singleton_append]
  rw [← List.append_assoc, ← List.append_assoc]
  exact List.perm_middle

theorem IsMade.identifiers (made : d.IsMade) :
    d.listenerIds.Nodup ∧ ∀ id ∈ d.listenerIds, id < d.nextListener := by
  induction made with
  | empty => exact ⟨List.nodup_nil, fun _ listed => nomatch listed⟩
  | @edited d edit _ _ ih =>
      have fewer : (d.apply edit).listenerIds.Sublist d.listenerIds :=
        apply_of_tidy (P := fun d' => d'.listenerIds.Sublist d.listenerIds)
          (fun d' tag before => by rwa [listenerIds_create])
          (fun _ _ _ tidy before => (listenerIds_modify tidy.listeners).trans before) edit (.refl _)
      refine ⟨ih.1.sublist fewer, fun id listed => ?_⟩
      rw [(fewer_apply edit d).next]
      exact ih.2 id (fewer.subset listed)
  | @listened d e reaction _ there ih =>
      have added := listenerIds_addListener there reaction
      constructor
      · rw [added.nodup_iff]
        exact List.nodup_cons.mpr ⟨fun listed => Nat.lt_irrefl _ (ih.2 _ listed), ih.1⟩
      · intro id listed
        rcases List.mem_cons.mp (added.mem_iff.mp listed) with rfl | before
        · exact Nat.lt_succ_self _
        · exact Nat.lt_succ_of_lt (ih.2 id before)

/-- Whatever was done to the elements of a document, in whatever order: parents and children
agree, classes are distinct, and identifiers of listeners are distinct and all given out. -/
theorem consistent_of_made (made : d.IsMade) : d.IsConsistent where
  linked := made.isLinked.mem_children
  once p c child := List.count_eq_one_of_mem (made.isLinked.nodup p)
    ((made.isLinked.mem_children p c).mpr child)
  classes := made.hasDistinctClasses
  identifiers := made.identifiers.1
  numbered := made.identifiers.2

namespace Sample

/-- A list of two entries; the second is appended to the document, moved below the list and
appended there again. -/
def entries : Document :=
  [.create "ul", .create "li", .create "li", .appendChild root ⟨1⟩, .appendChild ⟨1⟩ ⟨2⟩,
    .appendChild root ⟨3⟩, .appendChild ⟨1⟩ ⟨3⟩, .appendChild ⟨1⟩ ⟨2⟩].foldl apply empty

/-- The first entry is listened to and marked twice, and taken away; the other is listened
to after that. -/
def rest : Document :=
  ([Edit.toggleClass ⟨2⟩ "done" true, .toggleClass ⟨2⟩ "done" true, .remove ⟨2⟩].foldl apply
    (entries.addListener ⟨2⟩ (.client 0))).addListener ⟨3⟩ (.client 1)

theorem isMade_entries : entries.IsMade :=
  IsMade.empty.edits (by decide +kernel)

theorem isMade_rest : rest.IsMade :=
  .listened _ _ ((IsMade.listened _ _ isMade_entries (by decide +kernel)).edits
    (by decide +kernel)) (by decide +kernel)

end Sample

open Document.Sample in
theorem consistent_rest :
    rest.IsMade ∧ entries.children ⟨1⟩ = [⟨3⟩, ⟨2⟩] ∧ rest.children ⟨1⟩ = [⟨3⟩] ∧
      rest.parent ⟨2⟩ = none ∧ rest.listenerIds = [1] ∧ rest.IsConsistent := by
  refine ⟨isMade_rest, ?_, ?_, ?_, ?_, consistent_of_made isMade_rest⟩
  · decide +kernel
  · decide +kernel
  · decide +kernel
  · decide +kernel

end LiveBinding.Document
