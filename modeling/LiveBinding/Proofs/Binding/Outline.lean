/-
# LiveBinding.Proofs.Binding.Outline -- what applying slots anew leaves alone

A slot that is dirty is compiled anew each time it is applied, and what it was compiled
to changes with that.  All else about a binding stays (`Binding.outline`), and that
decides what its slots may still write on their element (`World.Writes`).
-/
import LiveBinding.Proofs.Document.Face
import LiveBinding.World

namespace LiveBinding

set_option autoImplicit false

variable {σ : Type}

namespace Slot

/-- What a slot reads when it is applied anew. -/
def current (b : Binding) (slot : Slot) (sight : Sight) : Except DeclarationError Compiled :=
  if slot.dirty then
    (b.declaration.compileOperator slot.name b.env sight).map (·.compiled)
  else .ok slot.compiled

/-- The slot but for what compiling it anew changes. -/
def outline (slot : Slot) : Slot :=
  { slot with
    compiled := if slot.dirty then .constant .null else slot.compiled
    recompilations := 0 }

/-- Applied anew, the slot may change what shows on the face. -/
def Affects (b : Binding) (slot : Slot) (face : Face) : Prop :=
  ∃ sight compiled content, slot.current b sight = .ok compiled ∧
    (slot.operator.apply (compiled.value sight) content).look face ≠ content.look face

end Slot

def Binding.outline (b : Binding) : Binding :=
  { b with slots := b.slots.map Slot.outline }

variable {b b' : Binding} {slot : Slot} {index : Nat}

theorem Slot.current_outline (b : Binding) (slot : Slot) (sight : Sight) :
    slot.outline.current b.outline sight = slot.current b sight := by
  unfold Slot.current Slot.outline
  dsimp only
  split
  · rfl
  · rfl

namespace Binding

/-- Bindings with one outline have slots with the same outlines. -/
theorem slot_of_outline (same : b'.outline = b.outline) (seated : b.slots[index]? = some slot) :
    ∃ slot', b'.slots[index]? = some slot' ∧ slot'.outline = slot.outline := by
  have slots : b'.slots.map Slot.outline = b.slots.map Slot.outline := congrArg Binding.slots same
  have found := congrArg (·[index]?) slots
  simp only [List.getElem?_map, seated, Option.map_some] at found
  obtain ⟨slot', there, outline⟩ := Option.map_eq_some_iff.mp found
  exact ⟨slot', there, outline⟩

theorem document_of_outline (same : b'.outline = b.outline) : b'.document = b.document :=
  (congrArg Binding.document same :)

theorem element_of_outline (same : b'.outline = b.outline) : b'.element = b.element :=
  (congrArg Binding.element same :)

theorem disposed_of_outline (same : b'.outline = b.outline) : b'.disposed = b.disposed :=
  (congrArg Binding.disposed same :)

end Binding

namespace Slot

variable {slot' : Slot}

theorem current_of_outline (same : b'.outline = b.outline) (sameSlot : slot'.outline = slot.outline)
    (sight : Sight) : slot'.current b' sight = slot.current b sight := by
  rw [← current_outline, same, sameSlot, current_outline]

theorem operator_of_outline (same : slot'.outline = slot.outline) :
    slot'.operator = slot.operator :=
  (congrArg Slot.operator same :)

/-- A slot that is not dirty reads the same as before. -/
theorem compiled_of_outline (same : slot'.outline = slot.outline) (clean : slot.dirty = false) :
    slot'.compiled = slot.compiled := by
  have dirty : slot'.dirty = slot.dirty := (congrArg Slot.dirty same :)
  have compiled : (if slot'.dirty then Compiled.constant .null else slot'.compiled) =
      if slot.dirty then .constant .null else slot.compiled := (congrArg Slot.compiled same :)
  rw [dirty, clean] at compiled
  exact compiled

theorem affects_of_outline (same : b'.outline = b.outline) (sameSlot : slot'.outline = slot.outline)
    {face : Face} (affects : slot'.Affects b' face) : slot.Affects b face := by
  obtain ⟨sight, compiled, content, current, changes⟩ := affects
  rw [current_of_outline same sameSlot] at current
  rw [operator_of_outline sameSlot] at changes
  exact ⟨sight, compiled, content, current, changes⟩

/-- Compiling a slot anew leaves its outline. -/
theorem outline_recompiled (slot : Slot) (compiled : Compiled) (times : Nat)
    (dirty : slot.dirty = true) :
    ({ slot with compiled := compiled, recompilations := times } : Slot).outline = slot.outline := by
  simp [outline, dirty]

end Slot

theorem Binding.outline_modifySlot {f : Slot → Slot} (seated : b.slots[index]? = some slot)
    (still : (f slot).outline = slot.outline) : (b.modifySlot index f).outline = b.outline := by
  have slots : (b.slots.modify index f).map Slot.outline = b.slots.map Slot.outline := by
    apply List.ext_getElem?
    intro i
    rw [List.getElem?_map, List.getElem?_map]
    by_cases same : index = i
    · subst same
      rw [List.getElem?_modify_eq, seated]
      exact congrArg some still
    · simp [same]
  simp only [outline, modifySlot, slots]

namespace World

def Alike (v w : World σ) : Prop :=
  ∀ binding, (w.bindings.get? binding).map Binding.outline =
    (v.bindings.get? binding).map Binding.outline

variable {u v w : World σ} {binding : Ref .binding}

theorem Alike.refl (w : World σ) : w.Alike w := fun _ => rfl

theorem Alike.trans (first : u.Alike v) (then_ : v.Alike w) : u.Alike w :=
  fun binding => (then_ binding).trans (first binding)

theorem alike_of_bindings (same : w.bindings = v.bindings) : v.Alike w := fun binding => by
  rw [same]

theorem Alike.symm (alike : v.Alike w) : w.Alike v := fun binding => (alike binding).symm

theorem Alike.row (alike : v.Alike w) (present : v.bindings.get? binding = some b) :
    ∃ b', w.bindings.get? binding = some b' ∧ b'.outline = b.outline := by
  have same := alike binding
  rw [present, Option.map_some] at same
  obtain ⟨b', there, outline⟩ := Option.map_eq_some_iff.mp same
  exact ⟨b', there, outline⟩

/-- A live slot at work on the element may change what shows on its face. -/
def Writes (w : World σ) (binding : Ref .binding) (index : Nat) (document : Ref .document)
    (element : Ref .element) (face : Face) : Prop :=
  ∃ b slot, w.bindings.get? binding = some b ∧ b.disposed = false ∧ b.document = document ∧
    b.element = element ∧ b.slots[index]? = some slot ∧ slot.Affects b face

/-- Slots write what they wrote before they were applied anew. -/
theorem Writes.of_alike {document : Ref .document} {element : Ref .element} {face : Face}
    (alike : v.Alike w) (writes : w.Writes binding index document element face) :
    v.Writes binding index document element face := by
  obtain ⟨b', slot', present, live, rfl, rfl, seated, affects⟩ := writes
  obtain ⟨b, was, same⟩ := alike.symm.row present
  obtain ⟨slot, seat, sameSlot⟩ := Binding.slot_of_outline same seated
  exact ⟨b, slot, was, (Binding.disposed_of_outline same).trans live,
    Binding.document_of_outline same, Binding.element_of_outline same, seat,
    Slot.affects_of_outline same.symm sameSlot.symm affects⟩

/-- One slot of the world may change what another one shows on the face. -/
def Contested (w : World σ) (binding : Ref .binding) (index : Nat) (document : Ref .document)
    (element : Ref .element) (face : Face) : Prop :=
  ∃ other at_, (other, at_) ≠ (binding, index) ∧ w.Writes other at_ document element face

end World

end LiveBinding
