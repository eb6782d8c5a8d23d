/-
# LiveBinding.Proofs.Run.Slot -- what slots do when they are called

Applying a slot anew changes the content of its element, the slot itself when that is
compiled anew, and the journal (`World.renew`).  It fails when the expression cannot be
compiled, and then nothing but the journal is changed.

Pushing the value of an element writes it to the name that the slot reads.  Where the
name is no computed property, the value is stored and announced as it is (`result_push`).
-/
import LiveBinding.Proofs.Binding.Outline
import LiveBinding.Proofs.Follower.Refresh
import LiveBinding.Proofs.Run.Apart
import LiveBinding.Proofs.World.Element

namespace LiveBinding

set_option autoImplicit false

variable {σ : Type}

namespace World

def recompiled (binding : Ref .binding) (index : Nat) (slot : Slot) (compiled : Compiled)
    (w : World σ) : World σ :=
  if slot.dirty then
    { w with bindings := w.bindings.update binding (.modifySlot index fun slot =>
        { slot with compiled := compiled, recompilations := slot.recompilations + 1 }) }
  else w

def renew (binding : Ref .binding) (index : Nat) (b : Binding) (slot : Slot) (message : Message)
    (compiled : Compiled) (w : World σ) : World σ :=
  let applied := (w.recompiled binding index slot compiled).editDocument b.document
    (.amend b.element (slot.operator.apply (compiled.value w.sight)))
  { applied with
    journal := w.journal ++ [⟨.message message, w.spans ++ [message.span "operator_reapply"]⟩] }

variable {w : World σ} {binding : Ref .binding} {index : Nat} {b : Binding} {slot : Slot}
  {message : Message} {compiled : Compiled}

theorem failed_append (error : Error) (spans : List Span) (w : World σ) :
    w.Failed { w with journal := w.journal ++ [⟨.failed error, spans⟩] } := by
  rw [Failed, Saw, List.drop_left]
  exact ⟨_, List.mem_singleton.mpr rfl, trivial⟩

theorem recompiled_tables (binding : Ref .binding) (index : Nat) (slot : Slot)
    (compiled : Compiled) (w : World σ) :
    (w.recompiled binding index slot compiled).hubs = w.hubs ∧
      (w.recompiled binding index slot compiled).models = w.models ∧
      (w.recompiled binding index slot compiled).documents = w.documents ∧
      (w.recompiled binding index slot compiled).views = w.views ∧
      (w.recompiled binding index slot compiled).held = w.held := by
  unfold recompiled
  split <;> exact ⟨rfl, rfl, rfl, rfl, rfl⟩

theorem renew_tables (binding : Ref .binding) (index : Nat) (b : Binding) (slot : Slot)
    (message : Message) (compiled : Compiled) (w : World σ) :
    (w.renew binding index b slot message compiled).hubs = w.hubs ∧
      (w.renew binding index b slot message compiled).models = w.models ∧
      (w.renew binding index b slot message compiled).views = w.views ∧
      (w.renew binding index b slot message compiled).held = w.held ∧
      (w.renew binding index b slot message compiled).documents =
        (w.editDocument b.document
          (.amend b.element (slot.operator.apply (compiled.value w.sight)))).documents := by
  obtain ⟨hubs, models, documents, views, held⟩ := recompiled_tables binding index slot compiled w
  refine ⟨hubs, models, views, held, ?_⟩
  show ((w.recompiled binding index slot compiled).documents.update _ _) = _
  rw [documents]
  rfl

/-- Applied anew, a slot changes the content of its element and of no other. -/
theorem elementAt_renew {document : Ref .document} {e : Ref .element} {element : Element}
    (binding : Ref .binding) (index : Nat) (b : Binding) (slot : Slot) (message : Message)
    (compiled : Compiled) (there : w.elementAt document e = some element) :
    (w.renew binding index b slot message compiled).elementAt document e =
      some (if document = b.document ∧ e = b.element then
        { element with content := slot.operator.apply (compiled.value w.sight) element.content }
        else element) := by
  obtain ⟨-, -, -, -, documents⟩ := renew_tables binding index b slot message compiled w
  rw [elementAt_of_documents documents, elementAt_amend _ _ _ there]

theorem alike_recompiled (present : w.bindings.get? binding = some b)
    (seated : b.slots[index]? = some slot) (compiled : Compiled) :
    w.Alike (w.recompiled binding index slot compiled) := by
  unfold recompiled
  split
  · rename_i dirty
    intro other
    by_cases same : other = binding
    · subst same
      rw [Table.get?_update_self, present]
      exact congrArg some
        (Binding.outline_modifySlot seated (Slot.outline_recompiled slot compiled _ dirty))
    · rw [Table.get?_update_of_ne _ _ same]
  · exact .refl w

theorem alike_renew (present : w.bindings.get? binding = some b)
    (seated : b.slots[index]? = some slot) (message : Message) (compiled : Compiled) :
    w.Alike (w.renew binding index b slot message compiled) :=
  alike_recompiled present seated compiled

theorem leaves_renew (binding : Ref .binding) (index : Nat) (b : Binding) (slot : Slot)
    (message : Message) (compiled : Compiled) (w : World σ) :
    w.Leaves (w.renew binding index b slot message compiled) := by
  have compiledAnew : w.Leaves (w.recompiled binding index slot compiled) := by
    unfold recompiled
    split
    · refine (Run.apart_updateBinding binding _ w (fun b => ?_) fun b => ?_).toLeaves
      · rfl
      · rfl
    · exact .refl w
  have applied := compiledAnew.trans (apart_editDocument b.document
    (.amend b.element (slot.operator.apply (compiled.value w.sight))) _).toLeaves
  exact applied.trans (.of_tables rfl rfl rfl)

end World

namespace Run

variable {s : State σ} {binding : Ref .binding} {index : Nat} {b : Binding} {slot : Slot}
  {compiled : Compiled} {event : String}

def reapplication (b : Binding) (slot : Slot) (event : String) : Message :=
  .operatorReapplied b.selector slot.name event slot.dirty

theorem result_recompile_ok (current : slot.current b s.world.sight = .ok compiled) :
    (recompile binding b index slot).result s =
      (.ok compiled, s.alter (.recompiled binding index slot compiled)) := by
  unfold Slot.current at current
  rw [recompile]
  by_cases dirty : slot.dirty = true
  · rw [if_pos dirty] at current ⊢
    rcases compiles : b.declaration.compileOperator slot.name b.env s.world.sight with e | c
    · rw [compiles] at current
      cases current
    · rw [compiles] at current
      cases current
      rw [result_bind_ok (result_compileOperator compiles), alterBinding, result_alter_bind]
      simp only [result_pure, State.alter, World.recompiled, if_pos dirty]
  · rw [if_neg dirty] at current ⊢
    cases current
    simp only [result_pure, State.alter, World.recompiled, if_neg dirty]

theorem result_recompile_error {e : DeclarationError}
    (refused : slot.current b s.world.sight = .error e) :
    (recompile binding b index slot).result s =
      (.error (.failed (.declaration e)), s.alter (.happen (.failed (.declaration e)))) := by
  unfold Slot.current at refused
  rw [recompile]
  by_cases dirty : slot.dirty = true
  · rw [if_pos dirty] at refused ⊢
    rcases compiles : b.declaration.compileOperator slot.name b.env s.world.sight with e' | c
    · rw [compiles] at refused
      cases refused
      refine result_bind_error ?_
      rw [compileOperator, result_world_bind, compiles]
      rfl
    · rw [compiles] at refused
      cases refused
  · rw [if_neg dirty] at refused
    cases refused

/-- A slot of a document that is kept is applied anew, if its expression compiles. -/
theorem result_reapply_ok (present : s.world.bindings.get? binding = some b)
    (seated : b.slots[index]? = some slot) (kept : s.world.keepsDocument b.document = true)
    (current : slot.current b s.world.sight = .ok compiled) :
    (reapply binding index event).result s =
      (.ok (), s.alter (.renew binding index b slot (reapplication b slot event) compiled)) := by
  have opened : (recompile binding b index slot).result (s.alter fun w => { w with
      spans := s.world.spans ++ [(reapplication b slot event).span "operator_reapply"] }) = _ :=
    result_recompile_ok current
  unfold reapplication at opened ⊢
  rw [reapply, result_world_bind]
  simp only [present, seated, kept, if_true]
  rw [result_within, result_lastly, result_bind_ok opened, result_world_bind, applyOperator,
    result_alter_bind, result_alter]
  simp only [State.alter, World.renew, World.recompiled]
  split <;> rfl

theorem result_reapply_error {e : DeclarationError}
    (present : s.world.bindings.get? binding = some b) (seated : b.slots[index]? = some slot)
    (kept : s.world.keepsDocument b.document = true)
    (refused : slot.current b s.world.sight = .error e) :
    (reapply binding index event).result s =
      (.error (.failed (.declaration e)), s.alter fun w => { w with
        journal := w.journal ++ [⟨.failed (.declaration e),
          w.spans ++ [(reapplication b slot event).span "operator_reapply"]⟩] }) := by
  have opened : (recompile binding b index slot).result (s.alter fun w => { w with
      spans := s.world.spans ++ [(reapplication b slot event).span "operator_reapply"] }) = _ :=
    result_recompile_error refused
  unfold reapplication at opened ⊢
  rw [reapply, result_world_bind]
  simp only [present, seated, kept, if_true]
  rw [result_within, result_lastly, result_bind_error opened]
  rfl

/-- Applying a slot anew renews the slot, or fails with a note; where there is no such
slot, or its document is gone, it does nothing. -/
theorem follows_reapply {R : State σ → State σ → Prop}
    (gone : (∀ b slot, s.world.bindings.get? binding = some b → b.slots[index]? = some slot →
      ¬ s.world.keepsDocument b.document = true) → R s s)
    (renewed : ∀ b slot compiled, s.world.bindings.get? binding = some b →
      b.slots[index]? = some slot → slot.current b s.world.sight = .ok compiled →
      R s (s.alter (.renew binding index b slot (reapplication b slot event) compiled)))
    (refused : ∀ error spans, R s (s.alter fun w => { w with
      journal := w.journal ++ [⟨.failed error, spans⟩] })) :
    Follows R (reapply binding index event) s := by
  have nothing : (∀ b slot, s.world.bindings.get? binding = some b → b.slots[index]? = some slot →
      ¬ s.world.keepsDocument b.document = true) → Follows R (pure () : Run σ Unit) s := by
    intro none ended t worked _
    cases worked
    exact ⟨.refl _, gone none, by rintro _ ⟨⟩⟩
  rcases present : s.world.bindings.get? binding with _ | b
  · refine Follows.world_bind ?_
    rw [present]
    exact nothing fun b slot there => by rw [present] at there; cases there
  rcases seated : b.slots[index]? with _ | slot
  · refine Follows.world_bind ?_
    simp only [present, seated]
    refine nothing fun b' slot there at_ => ?_
    rw [present] at there
    cases there
    rw [seated] at at_
    cases at_
  by_cases kept : s.world.keepsDocument b.document = true
  · rcases current : slot.current b s.world.sight with e | compiled
    · intro ended t worked _
      rw [result_reapply_error present seated kept current] at worked
      cases worked
      exact ⟨List.prefix_append _ _, refused _ _, fun _ _ => World.failed_append _ _ _⟩
    · intro ended t worked _
      rw [result_reapply_ok present seated kept current] at worked
      cases worked
      exact ⟨List.prefix_append _ _, renewed b slot compiled present seated current,
        by rintro _ ⟨⟩⟩
  · refine Follows.world_bind ?_
    simp only [present, seated, if_neg kept]
    refine nothing fun b' slot' there _ => ?_
    rw [present] at there
    cases there
    exact kept

/-! ## Pushing -/

variable {model : Ref .model} {m : Model σ} {name : String}

/-- Writing one attribute that is not computed. -/
theorem result_write_plain (present : s.world.models.get? model = some m)
    (plain : m.property? name = none) (fire : Fire σ) (value : Json) :
    (write fire model [(name, value)]).result s =
      (keeping (.model model) (writeStore fire model [(name, value)])).result s := by
  have there : (s.alter (.hold (.model model))).world.models.get? model = some m := present
  have routed : (route model [(name, value)] []).result (s.alter (.hold (.model model))) =
      (.ok [(name, value)], s.alter (.hold (.model model))) := by
    rw [route, result_world_bind, there]
    simp only [Option.bind_some, plain]
    rfl
  rw [write, result_keeping, result_keeping, result_lastly, result_lastly, result_bind_ok routed]

/-- The value of the element is written to the attribute that the slot reads. -/
theorem result_push (wired : s.world.bindings.get? binding = some b)
    (seated : b.slots[index]? = some slot) {element : Element}
    (there : s.world.elementAt b.document b.element = some element) {value : String}
    (read : slot.operator.read element.content = some (.text value))
    (leaf : slot.compiled = .leaf ⟨name, model⟩) (present : s.world.models.get? model = some m)
    (plain : m.property? name = none) (fire : Fire σ) :
    (push fire binding index).result s =
      (keeping (.model model) (writeStore fire model [(name, .text value)])).result
        (s.alter (.report (.valuePushed b.selector name))) := by
  have leads : slot.compiled.leaf? = some ⟨name, model⟩ := by
    rw [leaf]
    rfl
  have present' : (s.alter (.report (.valuePushed b.selector name))).world.models.get? model =
      some m := present
  have assigned : (assign fire ⟨name, model⟩ (.text value)).result
        (s.alter (.report (.valuePushed b.selector name))) =
      (write fire model [(name, .text value)]).result
        (s.alter (.report (.valuePushed b.selector name))) := by
    unfold assign
    rw [result_world_bind, present']
    rfl
  unfold World.elementAt at there
  rw [push, result_world_bind]
  simp only [wired, seated, there, read, leads]
  rw [result_alter_bind, assigned, result_write_plain present' plain]

end Run

end LiveBinding
