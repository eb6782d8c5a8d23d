/-
# LiveBinding.Proofs.World.Element -- what changes leave of one element

Changing a document concerns one face of one element or it does not.  What does not
leaves the element there, with the same to be seen on that face, and, if that is asked
for, with all its listeners (`Element.Spares`).
-/
import LiveBinding.Proofs.Document.Face
import LiveBinding.World

namespace LiveBinding

set_option autoImplicit false

variable {σ : Type}

/-- The same shows on the face, and, if that is asked for, no listener is gone. -/
structure Element.Spares (face : Face) (listened : Prop) (before after : Element) : Prop where
  look : after.content.look face = before.content.look face
  heard : listened → ∀ l ∈ before.listeners, l ∈ after.listeners

namespace Element.Spares

variable {face : Face} {listened : Prop} {first second third : Element}

theorem refl (face : Face) (listened : Prop) (element : Element) :
    element.Spares face listened element :=
  ⟨rfl, fun _ _ => id⟩

theorem trans (before : first.Spares face listened second)
    (after : second.Spares face listened third) : first.Spares face listened third :=
  ⟨after.look.trans before.look, fun asked l listed => after.heard asked l (before.heard asked l listed)⟩

end Element.Spares

namespace Document

variable {e other : Ref .element} {face : Face} {listened : Prop}

/-- The change leaves the face of the element as it is. -/
def Spares (e : Ref .element) (face : Face) (listened : Prop) (f : Document → Document) : Prop :=
  ∀ d element, d.get? e = some element →
    ∃ element', (f d).get? e = some element' ∧ element.Spares face listened element'

theorem get?_modify_self (e : Ref .element) (f : Element → Element) (d : Document) :
    (d.modify e f).get? e = (d.get? e).map f := by
  simp only [get?, modify, List.getElem?_modify_eq]
  rfl

theorem get?_modify_ne (distinct : e ≠ other) (f : Element → Element) (d : Document) :
    (d.modify other f).get? e = d.get? e := by
  have apart : other.index ≠ e.index := by
    intro same
    apply distinct
    cases e
    cases other
    simp_all
  simp [get?, modify, apart]

theorem spares_modify {f : Element → Element}
    (spares : e = other → ∀ element : Element, element.Spares face listened (f element)) :
    Spares e face listened (modify other f) := by
  intro d element present
  by_cases same : e = other
  · subst same
    exact ⟨f element, by rw [get?_modify_self, present]; rfl, spares rfl element⟩
  · exact ⟨element, (get?_modify_ne same f d).trans present, .refl face listened element⟩

theorem spares_amend {f : Content → Content}
    (keeps : e = other → ∀ c : Content, (f c).look face = c.look face) :
    Spares e face listened (amend other f) :=
  spares_modify fun same element => ⟨keeps same element.content, fun _ _ => id⟩

theorem spares_addListener (reaction : EditReaction) :
    Spares e face listened (addListener other reaction) := by
  intro d
  have added : Spares e face listened (modify other fun element =>
      { element with listeners := element.listeners ++ [⟨d.nextListener, reaction⟩] }) :=
    spares_modify fun _ element => ⟨rfl, fun _ _ => List.mem_append_left _⟩
  exact added d

end Document

namespace World

variable {w : World σ} {document other : Ref .document} {e : Ref .element} {element : Element}
  {face : Face} {listened : Prop}

def elementAt (w : World σ) (document : Ref .document) (e : Ref .element) : Option Element :=
  (w.documents.get? document).bind (·.get? e)

theorem elementAt_of_documents {v w : World σ} (same : w.documents = v.documents)
    (document : Ref .document) (e : Ref .element) : w.elementAt document e = v.elementAt document e := by
  rw [World.elementAt, same]
  rfl

/-- Changing a document as it spares the element leaves the element there. -/
theorem elementAt_editDocument {f : Document → Document}
    (spares : document = other → Document.Spares e face listened f)
    (there : w.elementAt document e = some element) :
    ∃ element', (w.editDocument other f).elementAt document e = some element' ∧
      element.Spares face listened element' := by
  obtain ⟨d, present, found⟩ := Option.bind_eq_some_iff.mp there
  by_cases same : document = other
  · subst same
    obtain ⟨element', found', spared⟩ := spares rfl d element found
    refine ⟨element', ?_, spared⟩
    rw [World.elementAt, editDocument, Table.get?_update_self, present]
    exact found'
  · refine ⟨element, ?_, .refl face listened element⟩
    rw [World.elementAt, editDocument, Table.get?_update_of_ne _ _ same, present]
    exact found

/-- Changing an element changes no other element. -/
theorem elementAt_modify (other : Ref .document) (at_ : Ref .element) {f : Document → Document}
    {g : Element → Element} (there : w.elementAt document e = some element)
    (same : ∀ d, w.documents.get? other = some d → (f d).get? e = (d.modify at_ g).get? e) :
    (w.editDocument other f).elementAt document e =
      some (if document = other ∧ e = at_ then g element else element) := by
  obtain ⟨d, present, found⟩ := Option.bind_eq_some_iff.mp there
  by_cases here : document = other
  · subst here
    rw [World.elementAt, editDocument, Table.get?_update_self, present]
    refine (same d present).trans ?_
    by_cases this : e = at_
    · subst this
      rw [Document.get?_modify_self, found, if_pos ⟨rfl, rfl⟩]
      rfl
    · rw [Document.get?_modify_ne this, found, if_neg fun both => this both.2]
  · rw [World.elementAt, editDocument, Table.get?_update_of_ne _ _ here, present,
      if_neg fun both => here both.1]
    exact found

/-- Changing the content of an element changes no other element. -/
theorem elementAt_amend (other : Ref .document) (at_ : Ref .element) (f : Content → Content)
    (there : w.elementAt document e = some element) :
    (w.editDocument other (.amend at_ f)).elementAt document e =
      some (if document = other ∧ e = at_ then { element with content := f element.content }
        else element) :=
  elementAt_modify other at_ there fun _ _ => rfl

/-- Listening to an element adds a listener to it and to no other. -/
theorem elementAt_listen (other : Ref .document) (at_ : Ref .element) (reaction : EditReaction)
    (there : w.elementAt document e = some element) :
    ∃ id, (w.listen other at_ reaction).2.elementAt document e = some { element with
      listeners := element.listeners ++
        if document = other ∧ e = at_ then [⟨id, reaction⟩] else [] } := by
  rcases present : w.documents.get? other with _ | d
  · refine ⟨0, ?_⟩
    have apart : document ≠ other := by
      rintro rfl
      rw [elementAt, present] at there
      cases there
    rw [if_neg fun both => apart both.1, List.append_nil, listen, present]
    exact there
  · refine ⟨d.nextListener, ?_⟩
    rw [listen, present]
    refine (elementAt_modify other at_ (g := fun element =>
      { element with listeners := element.listeners ++ [⟨d.nextListener, reaction⟩] }) there
      fun d' present' => ?_).trans ?_
    · cases present.symm.trans present'
      rfl
    · split
      · rfl
      · rw [List.append_nil]

/-! ## Single faces -/

def lookAt (w : World σ) (document : Ref .document) (e : Ref .element) (face : Face) : Option Json :=
  (w.elementAt document e).map (·.content.look face)

theorem lookAt_of_element (there : w.elementAt document e = some element) (face : Face) :
    w.lookAt document e face = some (element.content.look face) := by
  rw [lookAt, there]
  rfl

theorem lookAt_of_documents {v w : World σ} (same : w.documents = v.documents)
    (document : Ref .document) (e : Ref .element) (face : Face) :
    w.lookAt document e face = v.lookAt document e face := by
  rw [lookAt, elementAt_of_documents same, lookAt]

theorem lookAt_editDocument {f : Document → Document} {look : Json}
    (spares : document = other → Document.Spares e face listened f)
    (shows : w.lookAt document e face = some look) :
    (w.editDocument other f).lookAt document e face = some look := by
  obtain ⟨element, there, rfl⟩ := Option.map_eq_some_iff.mp shows
  obtain ⟨element', there', spared⟩ := elementAt_editDocument spares there
  exact (lookAt_of_element there' face).trans (congrArg some spared.look)

end World

end LiveBinding
