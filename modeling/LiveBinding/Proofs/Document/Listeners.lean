/-
# LiveBinding.Proofs.Document.Listeners -- who listens to elements

A change of a document adds no listener to any element and gives out no identifier
(`Document.Fewer`), unless it is made to add one (`addListener`), and then it adds that one
only, under an identifier that was not given out before.
-/
import LiveBinding.Document.Fixture
import LiveBinding.Proofs.World.Element

namespace LiveBinding.Document

set_option autoImplicit false

/-- Nobody listens to an element of the second who does not on the first, and both have given
out the same identifiers. -/
structure Fewer (d d' : Document) : Prop where
  next : d'.nextListener = d.nextListener
  listed : ∀ e, ∀ l ∈ d'.listeners e, l ∈ d.listeners e

namespace Fewer

theorem refl (d : Document) : d.Fewer d := ⟨rfl, fun _ _ => id⟩

theorem trans {d d' d'' : Document} (first : d.Fewer d') (then_ : d'.Fewer d'') : d.Fewer d'' :=
  ⟨then_.next.trans first.next, fun e l listed => first.listed e l (then_.listed e l listed)⟩

end Fewer

variable {d : Document} {e other : Ref .element} {l : EditListener}

theorem mem_listeners : l ∈ d.listeners e ↔ ∃ element, d.get? e = some element ∧ l ∈ element.listeners := by
  unfold listeners
  cases d.get? e with
  | none => simp
  | some element => simp

theorem fewer_modify (e : Ref .element) {f : Element → Element}
    (fewer : ∀ element, ∀ l ∈ (f element).listeners, l ∈ element.listeners) (d : Document) :
    d.Fewer (d.modify e f) := by
  refine ⟨rfl, fun other l listed => ?_⟩
  obtain ⟨element, there, on⟩ := mem_listeners.mp listed
  by_cases same : other = e
  · subst same
    rw [get?_modify_self, Option.map_eq_some_iff] at there
    obtain ⟨old, was, rfl⟩ := there
    exact mem_listeners.mpr ⟨old, was, fewer old l on⟩
  · rw [get?_modify_ne same] at there
    exact mem_listeners.mpr ⟨element, there, on⟩

/-- Changing anything of an element but its listeners. -/
theorem fewer_modify_of_same (e : Ref .element) (f : Element → Element)
    (same : ∀ element, (f element).listeners = element.listeners) (d : Document) :
    d.Fewer (d.modify e f) :=
  fewer_modify e (fun element l listed => by rwa [same] at listed) d

theorem fewer_amend (e : Ref .element) (f : Content → Content) (d : Document) :
    d.Fewer (d.amend e f) := by
  apply fewer_modify_of_same
  exact fun _ => rfl

theorem fewer_create (tag : String) (d : Document) : d.Fewer (d.create tag) := by
  refine ⟨rfl, fun e l listed => ?_⟩
  obtain ⟨element, there, on⟩ := mem_listeners.mp listed
  rw [get?, create, List.getElem?_append] at there
  split at there
  · exact mem_listeners.mpr ⟨element, there, on⟩
  · obtain ⟨_, new⟩ := List.getElem?_eq_some_iff.mp there
    rw [List.getElem_singleton] at new
    rw [← new] at on
    cases on

theorem fewer_detach (e : Ref .element) (d : Document) : d.Fewer (d.detach e) := by
  unfold detach
  split
  · exact .refl d
  · refine (fewer_modify_of_same _ _ ?_ _).trans (fewer_modify_of_same _ _ ?_ _)
    · exact fun _ => rfl
    · exact fun _ => rfl

theorem fewer_appendChild (parent child : Ref .element) (d : Document) :
    d.Fewer (d.appendChild parent child) := by
  refine ((fewer_detach child d).trans (fewer_modify_of_same _ _ ?_ _)).trans
    (fewer_modify_of_same _ _ ?_ _)
  · exact fun _ => rfl
  · exact fun _ => rfl

theorem fewer_silence (e : Ref .element) (d : Document) : d.Fewer (d.silence e) :=
  fewer_modify e (fun _ _ listed => absurd listed List.not_mem_nil) d

theorem fewer_remove (e : Ref .element) (d : Document) : d.Fewer (d.remove e) := by
  have silenced : ∀ (es : List (Ref .element)) (d : Document), d.Fewer (es.foldl silence d) := by
    intro es
    induction es with
    | nil => exact .refl
    | cons e rest ih => exact fun d => (fewer_silence e d).trans (ih _)
  exact (fewer_detach e d).trans (silenced _ _)

theorem fewer_removeListener (e : Ref .element) (id : Nat) (d : Document) :
    d.Fewer (d.removeListener e id) :=
  fewer_modify e (fun _ _ listed => (List.mem_filter.mp listed).1) d

/-- A listener that was taken off is gone. -/
theorem ne_of_mem_removeListener {id : Nat} (listed : l ∈ (d.removeListener e id).listeners e) :
    l.id ≠ id := by
  obtain ⟨element, there, on⟩ := mem_listeners.mp listed
  rw [removeListener, get?_modify_self, Option.map_eq_some_iff] at there
  obtain ⟨old, -, rfl⟩ := there
  simpa using (List.mem_filter.mp on).2

theorem fewer_apply (edit : Edit) (d : Document) : d.Fewer (d.apply edit) := by
  cases edit with
  | create tag => exact fewer_create tag d
  | appendChild parent child => exact fewer_appendChild parent child d
  | removeListener e id => exact fewer_removeListener e id d
  | remove e => exact fewer_remove e d
  | _ => exact fewer_amend _ _ d

mutual

theorem fewer_mount (parent : Ref .element) (fixture : Fixture) (d : Document) :
    d.Fewer (Fixture.mount parent fixture d) := by
  obtain ⟨tag, id, classes, text, value, children⟩ := fixture
  exact (((fewer_create tag d).trans (fewer_appendChild _ _ _)).trans (fewer_amend _ _ _)).trans
    (fewer_mountAll _ children _)

theorem fewer_mountAll (parent : Ref .element) (fixtures : List Fixture) (d : Document) :
    d.Fewer (Fixture.mountAll parent fixtures d) := by
  match fixtures with
  | [] => exact .refl d
  | fixture :: rest => exact (fewer_mount parent fixture d).trans (fewer_mountAll parent rest _)

end

/-- A listener that is there after one was added was there, or is the one. -/
theorem mem_addListener {reaction : EditReaction}
    (listed : l ∈ (d.addListener e reaction).listeners other) :
    l ∈ d.listeners other ∨ other = e ∧ l = ⟨d.nextListener, reaction⟩ := by
  obtain ⟨element, there, on⟩ := mem_listeners.mp listed
  have added : (d.modify e fun element =>
      { element with listeners := element.listeners ++ [⟨d.nextListener, reaction⟩] }).get? other =
        some element := there
  by_cases same : other = e
  · subst same
    rw [get?_modify_self, Option.map_eq_some_iff] at added
    obtain ⟨old, was, rfl⟩ := added
    rcases List.mem_append.mp on with before | new
    · exact Or.inl (mem_listeners.mpr ⟨old, was, before⟩)
    · exact Or.inr ⟨rfl, List.mem_singleton.mp new⟩
  · rw [get?_modify_ne same] at added
    exact Or.inl (mem_listeners.mpr ⟨element, added, on⟩)

/-! ## Identifiers -/

/-- The document has gone on: it has given out more identifiers, and of those that it had given
out before none is listed that was not listed then. -/
structure GoesOn (d d' : Document) : Prop where
  next : d.nextListener ≤ d'.nextListener
  listed : ∀ e, ∀ l ∈ d'.listeners e, l.id < d.nextListener → l ∈ d.listeners e

theorem Fewer.goesOn {d d' : Document} (fewer : d.Fewer d') : d.GoesOn d' :=
  ⟨Nat.le_of_eq fewer.next.symm, fun e l listed _ => fewer.listed e l listed⟩

theorem GoesOn.trans {d d' d'' : Document} (first : d.GoesOn d') (then_ : d'.GoesOn d'') :
    d.GoesOn d'' :=
  ⟨Nat.le_trans first.next then_.next, fun e l listed old =>
    first.listed e l (then_.listed e l listed (Nat.lt_of_lt_of_le old first.next)) old⟩

theorem goesOn_addListener (e : Ref .element) (reaction : EditReaction) (d : Document) :
    d.GoesOn (d.addListener e reaction) := by
  refine ⟨Nat.le_succ _, fun other l listed old => ?_⟩
  rcases mem_addListener listed with before | ⟨-, rfl⟩
  · exact before
  · exact absurd old (Nat.lt_irrefl _)

structure Numbered (d : Document) : Prop where
  below : ∀ e, ∀ l ∈ d.listeners e, l.id < d.nextListener
  unique : ∀ e e' l l', l ∈ d.listeners e → l' ∈ d.listeners e' → l.id = l'.id → l = l'

theorem not_mem_listeners_empty : l ∉ empty.listeners e := by
  intro listed
  obtain ⟨element, there, on⟩ := mem_listeners.mp listed
  obtain ⟨_, root⟩ := List.getElem?_eq_some_iff.mp there
  rw [show element = Element.ofTag rootTag by rw [← root]; simp [empty]] at on
  cases on

theorem Numbered.empty : Document.empty.Numbered :=
  ⟨fun _ _ listed => absurd listed not_mem_listeners_empty,
    fun _ _ _ _ listed => absurd listed not_mem_listeners_empty⟩

theorem Numbered.fewer {d d' : Document} (numbered : d.Numbered) (fewer : d.Fewer d') :
    d'.Numbered where
  below e l listed := by
    rw [fewer.next]
    exact numbered.below e l (fewer.listed e l listed)
  unique e e' l l' listed listed' :=
    numbered.unique e e' l l' (fewer.listed e l listed) (fewer.listed e' l' listed')

theorem Numbered.addListener (numbered : d.Numbered) (e : Ref .element) (reaction : EditReaction) :
    (d.addListener e reaction).Numbered where
  below other l listed := by
    rcases mem_addListener listed with before | ⟨-, rfl⟩
    · exact Nat.lt_succ_of_lt (numbered.below other l before)
    · exact Nat.lt_succ_self _
  unique at_ at' l l' listed listed' same := by
    have apart : ∀ e l, l ∈ d.listeners e → l.id ≠ d.nextListener := fun e l before =>
      Nat.ne_of_lt (numbered.below e l before)
    rcases mem_addListener listed with before | ⟨-, rfl⟩ <;>
      rcases mem_addListener listed' with before' | ⟨-, rfl⟩
    · exact numbered.unique at_ at' l l' before before' same
    · exact absurd same (apart at_ l before)
    · exact absurd same.symm (apart at' l' before')
    · rfl

end LiveBinding.Document
