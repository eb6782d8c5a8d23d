/-
# LiveBinding.Proofs.Run.Attach -- resolved declarations can be attached

What a declaration was resolved for can be compiled whatever the models show, so
attaching it ends well (`attach_ok`), and so does attaching many (`attachAll_ok`).

Both say what holds afterwards: anything that a new binding does not disturb and
that is kept when one more operator is applied to it.
-/
import LiveBinding.Proofs.Binding.Compile
import LiveBinding.Proofs.Run.Journal
import LiveBinding.Proofs.World.Fit

namespace LiveBinding

set_option autoImplicit false

variable {σ : Type}

/-! ## What the journal says -/

namespace World

theorem journal_enlistAll (binding : Ref .binding) (slot : Nat) (ds : List Dependency)
    (w : World σ) : (ds.foldl (enlist binding slot) w).journal = w.journal := by
  induction ds generalizing w with
  | nil => rfl
  | cons d rest ih =>
      exact (ih (w.enlist binding slot d)).trans (journal_subscribe d.hub d.event _ w)

/-- Applying an operator for the first time is noted. -/
theorem journal_fit (binding : Ref .binding) (b : Binding) (editable : Bool) (name : String)
    (operator : Operator) (c : Compilation) (w : World σ) :
    ∃ entry : Entry, entry.happening = .message (.operatorApplied b.selector name
        c.compiled.isDirty (c.dependencies w.sight).length) ∧
      (w.fit binding b editable name operator c).journal = w.journal ++ [entry] := by
  have noted : ∀ v : World σ, v.journal = w.journal → ∀ message,
      ∃ entry : Entry, entry.happening = .message message ∧
        (v.report message).journal = w.journal ++ [entry] := by
    intro v same message
    exact ⟨⟨.message message, v.spans⟩, rfl, by rw [report, happen, same]⟩
  rw [fit, journal_enlistAll, equip]
  dsimp only
  split
  · exact noted (attend binding b _) (journal_listen _ _ _ (w.editDocument b.document _)) _
  · exact noted _ rfl _

theorem before_fit (binding : Ref .binding) (b : Binding) (editable : Bool) (name : String)
    (operator : Operator) (c : Compilation) (w : World σ) :
    w.Before (w.fit binding b editable name operator c) := by
  obtain ⟨entry, -, added⟩ := journal_fit binding b editable name operator c w
  rw [Before, added]
  exact List.prefix_append _ _

end World

/-- The binding is given a slot for each of the operators. -/
structure Binding.Gains (b : Binding) (operators : List (String × Operator)) (b' : Binding) :
    Prop where
  document : b'.document = b.document
  element : b'.element = b.element
  declaration : b'.declaration = b.declaration
  env : b'.env = b.env
  disposed : b'.disposed = b.disposed
  slots : b'.slots.map (fun slot => (slot.name, slot.operator)) =
    b.slots.map (fun slot => (slot.name, slot.operator)) ++ operators

namespace Binding.Gains

theorem refl (b : Binding) : b.Gains [] b :=
  ⟨rfl, rfl, rfl, rfl, rfl, (List.append_nil _).symm⟩

theorem cons {b b' : Binding} {slot : Slot} {subs : List Subscription} {ids : List Nat}
    {operators : List (String × Operator)}
    (gains : { b with
      slots := b.slots ++ [slot], subscriptions := subs, listeners := ids }.Gains operators b') :
    b.Gains ((slot.name, slot.operator) :: operators) b' where
  document := gains.document
  element := gains.element
  declaration := gains.declaration
  env := gains.env
  disposed := gains.disposed
  slots := by simpa using gains.slots

end Binding.Gains

namespace Run

variable {s : State σ}

theorem result_subscribeSlot (binding : Ref .binding) (slot : Nat) (ds : List Dependency)
    (s : State σ) : (subscribeSlot binding slot ds).result s =
      (.ok (), s.alter fun w => ds.foldl (World.enlist binding slot) w) := by
  induction ds generalizing s with
  | nil => rfl
  | cons d rest ih =>
      rw [subscribeSlot, result_bind_ok (result_produce _ s), alterBinding, result_alter_bind, ih]
      rfl

theorem result_compileOperator {b : Binding} {operator : String} {c : Compilation}
    (compiled : b.declaration.compileOperator operator b.env s.world.sight = .ok c) :
    (compileOperator b operator).result s = (.ok c, s) := by
  rw [compileOperator, result_world_bind, compiled]
  rfl

/-- What applying an operator for the first time does. -/
theorem result_applySlot {binding : Ref .binding} (editable : Bool) {name : String}
    (operator : Operator) {b : Binding} {c : Compilation}
    (present : s.world.bindings.get? binding = some b)
    (compiled : b.declaration.compileOperator name b.env s.world.sight = .ok c) :
    (applySlot binding editable name operator).result s =
      (.ok (), s.alter (.fit binding b editable name operator c)) := by
  rw [applySlot, result_world_bind, present]
  dsimp only
  rw [result_bind_ok (result_compileOperator compiled), result_world_bind, applyOperator,
    result_alter_bind]
  by_cases attends : (editable && operator.readable && c.compiled.isLeaf) = true
  · rw [if_pos attends, listenForEdits]
    simp only [result_bind, result_produce, alterBinding, result_alter, result_subscribeSlot]
    simp only [State.alter, World.fit, World.equip, if_pos attends]
    rfl
  · rw [if_neg attends]
    simp only [result_bind, alterBinding, result_alter, result_subscribeSlot]
    simp only [State.alter, World.fit, World.equip, if_neg attends]

theorem result_applySlot_error {binding : Ref .binding} (editable : Bool) {name : String}
    (operator : Operator) {b : Binding} {e : DeclarationError}
    (present : s.world.bindings.get? binding = some b)
    (refused : b.declaration.compileOperator name b.env s.world.sight = .error e) :
    (applySlot binding editable name operator).result s =
      (.error (.failed (.declaration e)), s.alter (.happen (.failed (.declaration e)))) := by
  have failed : (compileOperator b name).result s =
      (.error (.failed (.declaration e)), s.alter (.happen (.failed (.declaration e)))) := by
    rw [compileOperator, result_world_bind, refused]
    rfl
  rw [applySlot, result_world_bind, present]
  dsimp only
  rw [result_bind_error failed]

/-- An operator that was applied had been compiled. -/
theorem applySlot_ok {binding : Ref .binding} {editable : Bool} {name : String}
    {operator : Operator} {b : Binding} {t : State σ}
    (present : s.world.bindings.get? binding = some b)
    (ended : (applySlot binding editable name operator).result s = (.ok (), t)) :
    ∃ c, b.declaration.compileOperator name b.env s.world.sight = .ok c ∧
      t = s.alter (.fit binding b editable name operator c) := by
  rcases compiled : b.declaration.compileOperator name b.env s.world.sight with e | c
  · rw [result_applySlot_error editable operator present compiled] at ended
    cases ended
  · rw [result_applySlot editable operator present compiled] at ended
    cases ended
    exact ⟨c, rfl, rfl⟩

/-! ## Attaching -/

/-- What is kept while declarations are attached to a document: a new binding is
started, and one more operator is applied to a new binding, where that is allowed. -/
structure Endures (env : Environment) (catalog : Catalog) (document : Ref .document) (first : Nat)
    (allowed : Ref .element → Bool → Prop) (kept : World σ → Prop) : Prop where
  started : ∀ {w element declaration}, kept w →
    kept { w with bindings := w.bindings.insert (.start document element declaration env) }
  fitted : ∀ {w binding b name operator c}, kept w → w.bindings.get? binding = some b →
    first ≤ binding.index → b.document = document → b.env = env →
    Index.get? name catalog = some operator →
    b.declaration.compileOperator name env w.sight = .ok c →
    ∀ editable, allowed b.element editable → kept (w.fit binding b editable name operator c)

variable {env : Environment} {catalog : Catalog} {document : Ref .document} {first : Nat}
  {allowed : Ref .element → Bool → Prop} {kept : World σ → Prop}

theorem applySlots_ok (endures : Endures env catalog document first allowed kept) (editable : Bool)
    (binding : Ref .binding) (new : first ≤ binding.index) {r : Resolved}
    (attachable : r.Attachable env catalog) {operators : List (String × Operator)}
    (among : ∀ entry ∈ operators, entry ∈ r.operators) {b : Binding} (holds : kept s.world)
    (present : s.world.bindings.get? binding = some b) (onDocument : b.document = document)
    (names : b.env = env) (declared : b.declaration = r.declaration)
    (permitted : allowed b.element editable) :
    ∃ w b', (applySlots binding editable operators).result s = (.ok (), { s with world := w }) ∧
      kept w ∧ w.bindings.get? binding = some b' ∧ b.Gains operators b' := by
  induction operators generalizing s b with
  | nil => exact ⟨s.world, b, rfl, holds, present, .refl b⟩
  | cons entry rest ih =>
      obtain ⟨name, operator⟩ := entry
      have listed := among (name, operator) List.mem_cons_self
      obtain ⟨pair, c, found, compiled⟩ := attachable.compiles listed s.world.sight
      have compiles : b.declaration.compileOperator name env s.world.sight = .ok c := by
        rw [declared, Declaration.compileOperator, found]
        exact compiled
      have applied := result_applySlot editable operator present (by rw [names]; exact compiles)
      obtain ⟨subs, ids, there, -⟩ := World.row_fit editable name operator c present
      rw [applySlots, result_bind_ok applied]
      obtain ⟨w, b', ended, holdsThen, presentThen, gains⟩ :=
        ih (s := s.alter (.fit binding b editable name operator c))
          (fun other later => among other (List.mem_cons_of_mem _ later))
          (endures.fitted holds present new onDocument names (attachable.catalogued _ listed)
            compiles editable permitted) there onDocument names declared permitted
      exact ⟨w, b', ended, holdsThen, presentThen, gains.cons⟩

/-- A resolved declaration can be attached. -/
theorem attach_ok (endures : Endures env catalog document first allowed kept)
    {element : Ref .element} {editable : Bool} (permitted : allowed element editable)
    {r : Resolved} (attachable : r.Attachable env catalog) (holds : kept s.world)
    (next : first ≤ s.world.bindings.rows.length) :
    ∃ w b, (attach document element env editable r).result s =
        (.ok s.world.bindings.fresh, { s with world := w }) ∧ kept w ∧
      w.bindings.get? s.world.bindings.fresh = some b ∧
      (Binding.start document element r.declaration env).Gains r.operators b := by
  obtain ⟨w, b, applied, holdsThen, there, gains⟩ := applySlots_ok (s := s.alter fun w => { w with
      bindings := w.bindings.insert (.start document element r.declaration env) })
    endures editable s.world.bindings.fresh next attachable (fun _ => id)
    (endures.started holds) (Table.get?_insert_fresh _ _) rfl rfl rfl permitted
  refine ⟨w, b, ?_, holdsThen, there, gains⟩
  rw [attach, result_bind_ok (result_produce _ s)]
  have attempted : (attempt (applySlots s.world.bindings.fresh editable r.operators)).result
      (s.alter fun w => { w with
        bindings := w.bindings.insert (.start document element r.declaration env) }) =
      (.ok (.ok ()), { s with world := w }) := by
    rw [result_attempt, applied]
    rfl
  rw [result_bind_ok attempted]
  rfl

theorem Endures.and {kept' : World σ → Prop}
    (endures : Endures env catalog document first allowed kept)
    (endures' : Endures env catalog document first allowed kept') :
    Endures env catalog document first allowed fun w => kept w ∧ kept' w where
  started both := ⟨endures.started both.1, endures'.started both.2⟩
  fitted both present new onDocument names known compiled editable permitted :=
    ⟨endures.fitted both.1 present new onDocument names known compiled editable permitted,
      endures'.fitted both.2 present new onDocument names known compiled editable permitted⟩

/-- Bindings that are there before stay as they are. -/
theorem endures_row (env : Environment) (catalog : Catalog) (document : Ref .document)
    {first : Nat} (allowed : Ref .element → Bool → Prop) {binding : Ref .binding} {b : Binding}
    (earlier : binding.index < first) :
    Endures (σ := σ) env catalog document first allowed fun w =>
      w.bindings.get? binding = some b where
  started present := Table.get?_insert_some.mpr (Or.inr present)
  fitted {w other b' name operator c} present _ new _ _ _ _ editable _ := by
    have apart : binding ≠ other := by
      rintro rfl
      omega
    exact ((World.onlyRow_fit other b' editable name operator c w).others apart).trans present

theorem Endures.later (endures : Endures env catalog document first allowed kept) {next : Nat}
    (later : first ≤ next) : Endures env catalog document next allowed kept where
  started := endures.started
  fitted holds present new := endures.fitted holds present (Nat.le_trans later new)

/-- Resolved declarations can be attached, all of them, each by a binding of its own. -/
theorem attachAll_ok {v : View} (endures : Endures env v.catalog v.document first allowed kept)
    {resolved : List (Ref .element × Resolved)}
    (attachable : ∀ entry ∈ resolved, entry.2.Attachable env v.catalog)
    (permitted : ∀ entry ∈ resolved, ∀ w, kept w →
      allowed entry.1 (v.isEditable (tagOf w v.document entry.1))) (holds : kept s.world)
    (next : first ≤ s.world.bindings.rows.length) :
    ∃ bindings w, (attachAll v env resolved).result s = (.ok bindings, { s with world := w }) ∧
      kept w ∧ (∀ b ∈ bindings, first ≤ b.index) ∧
      List.Forall₂ (fun entry binding => ∃ b, w.bindings.get? binding = some b ∧
        (Binding.start v.document entry.1 entry.2.declaration env).Gains entry.2.operators b)
        resolved bindings := by
  induction resolved generalizing s first kept with
  | nil => exact ⟨[], s.world, rfl, holds, by simp, .nil⟩
  | cons entry rest ih =>
      obtain ⟨element, r⟩ := entry
      obtain ⟨w, b, attached, holdsThen, there, gains⟩ := attach_ok endures
        (permitted (element, r) List.mem_cons_self s.world holds)
        (attachable (element, r) List.mem_cons_self) holds next
      have issued : s.world.bindings.rows.length < w.bindings.rows.length := Table.lt_of_get? there
      -- attaching the others leaves the binding as it is
      have onwards := (endures.later (Nat.le_trans next (Nat.le_of_lt issued))).and
        (endures_row env v.catalog v.document allowed (b := b) issued)
      obtain ⟨others, w', attachedRest, ⟨holdsLast, still⟩, new, rows⟩ := ih onwards
        (s := { s with world := w })
        (fun other later => attachable other (List.mem_cons_of_mem _ later))
        (fun other later w both => permitted other (List.mem_cons_of_mem _ later) w both.1)
        ⟨holdsThen, there⟩ (Nat.le_refl _)
      refine ⟨s.world.bindings.fresh :: others, w', ?_, holdsLast, ?_,
        .cons ⟨b, still, gains⟩ rows⟩
      · have attempted : (attempt (attachAll v env rest)).result { s with world := w } =
            (.ok (.ok others), { s with world := w' }) := by
          rw [result_attempt, attachedRest]
        rw [attachAll, result_world_bind]
        dsimp only
        rw [result_bind_ok attached, result_bind_ok attempted]
        rfl
      · intro b among
        rcases List.mem_cons.mp among with rfl | later
        · exact next
        · exact Nat.le_trans (Nat.le_trans next (Nat.le_of_lt issued)) (new b later)

end Run

end LiveBinding
