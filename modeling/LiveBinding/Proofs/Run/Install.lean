/-
# LiveBinding.Proofs.Run.Install -- what binding a view leaves on the page

After a view was bound, each slot hears of every attribute that was read for its
expression, each face it shows shows the value of the expression unless another slot
writes that face too, and where the element is editable and the slot reads a bare name,
the value of the element is pushed back (`World.Installed`).

That holds of a slot when its operator was applied, and applying further operators keeps
it: at worst a face is contested then.  So it is with a slot whose operator takes an object:
where no other slot writes, it shows what the operator makes of the element as it was before
the view was bound (`World.Covers`).
-/
import LiveBinding.Proofs.AllOrNothing
import LiveBinding.Proofs.Binding.Meaning
import LiveBinding.Proofs.Binding.Outline
import LiveBinding.Proofs.Follower.Sound
import LiveBinding.Proofs.World.Element

namespace LiveBinding

set_option autoImplicit false

variable {σ : Type}

theorem View.catalog_standard (v : View) (standard : v.operators = []) :
    v.catalog = Catalog.standard := by
  rw [View.catalog, standard]
  rfl

namespace World

variable {w : World σ} {binding other : Ref .binding} {b : Binding} {name : String}
  {operator : Operator} {c : Compilation} {document : Ref .document} {e : Ref .element}
  {element : Element}

/-! ## Applying one more operator -/

/-- The documents after an operator was applied. -/
theorem elementAt_equip (binding : Ref .binding) (b : Binding) (editable : Bool) (name : String)
    (operator : Operator) (c : Compilation) (there : w.elementAt document e = some element) :
    ∃ element', (w.equip binding b editable name operator c).elementAt document e = some element' ∧
      element'.content = (if document = b.document ∧ e = b.element then
        operator.apply (c.compiled.value w.sight) element.content else element.content) ∧
      (∀ l ∈ element.listeners, l ∈ element'.listeners) ∧
      ((editable && operator.readable && c.compiled.isLeaf) = true →
        document = b.document → e = b.element →
          ∃ id, ⟨id, .push binding b.slots.length⟩ ∈ element'.listeners) := by
  have applied := elementAt_amend b.document b.element
    (operator.apply (c.compiled.value w.sight)) there
  by_cases attends : (editable && operator.readable && c.compiled.isLeaf) = true
  · obtain ⟨id, listens⟩ := elementAt_listen b.document b.element
      (.push binding b.slots.length) applied
    have documents : (w.equip binding b editable name operator c).documents =
        ((w.editDocument b.document (.amend b.element
          (operator.apply (c.compiled.value w.sight)))).listen b.document b.element
            (.push binding b.slots.length)).2.documents := by
      simp only [equip, if_pos attends]
      rfl
    refine ⟨_, (elementAt_of_documents documents document e).trans listens, ?_, ?_, ?_⟩
    · dsimp only
      split <;> rfl
    · intro l listed
      refine List.mem_append_left _ ?_
      split <;> exact listed
    · rintro - rfl rfl
      exact ⟨id, List.mem_append_right _ (by rw [if_pos ⟨rfl, rfl⟩]; exact List.mem_singleton.mpr rfl)⟩
  · have documents : (w.equip binding b editable name operator c).documents =
        (w.editDocument b.document (.amend b.element
          (operator.apply (c.compiled.value w.sight)))).documents := by
      simp only [equip, if_neg attends]
      rfl
    refine ⟨_, (elementAt_of_documents documents document e).trans applied, ?_, ?_, ?_⟩
    · split <;> rfl
    · intro l listed
      split <;> exact listed
    · exact fun attend => absurd attend attends

theorem elementAt_fit (binding : Ref .binding) (b : Binding) (editable : Bool) (name : String)
    (operator : Operator) (c : Compilation) (there : w.elementAt document e = some element) :
    ∃ element', (w.fit binding b editable name operator c).elementAt document e = some element' ∧
      element'.content = (if document = b.document ∧ e = b.element then
        operator.apply (c.compiled.value w.sight) element.content else element.content) ∧
      (∀ l ∈ element.listeners, l ∈ element'.listeners) ∧
      ((editable && operator.readable && c.compiled.isLeaf) = true →
        document = b.document → e = b.element →
          ∃ id, ⟨id, .push binding b.slots.length⟩ ∈ element'.listeners) := by
  obtain ⟨element', there', facts⟩ := elementAt_equip binding b editable name operator c there
  have documents := (tables_enlistAll binding b.slots.length (c.dependencies w.sight)
    (w.equip binding b editable name operator c)).2.2.2
  exact ⟨element', (elementAt_of_documents documents document e).trans there', facts⟩

theorem sight_fit (binding : Ref .binding) (b : Binding) (editable : Bool) (name : String)
    (operator : Operator) (c : Compilation) (w : World σ) :
    (w.fit binding b editable name operator c).sight = w.sight := by
  unfold sight
  rw [(tables_fit binding b editable name operator c w).1]

/-! ## Slots that were applied -/

/-- What holds of a slot of a binding from the time its operator was applied first. -/
structure Installed (w : World σ) (v : View) (binding : Ref .binding) (b : Binding) (index : Nat)
    (slot : Slot) : Prop where
  known : Index.get? slot.name v.catalog = some slot.operator
  /-- What was read for the expression is heard of. -/
  hears : ∃ pair sight c, b.declaration.pair? slot.name = some pair ∧
    pair.expr.compile b.selector b.env sight = .ok c ∧ slot.compiled = c.compiled ∧
    slot.dirty = c.compiled.isDirty ∧
    ∀ a ∈ Expr.readings c, ∀ m, w.models.get? a.model = some m →
      ∃ s, s.hub = m.hub ∧ s.event = changeOf a.name ∧
        Registered w.hubs s (.reapply binding index)
  /-- The element is there, and its value is pushed where it is editable.  Operators of the
  view's own might change what tag the element has. -/
  page : ∃ element, w.elementAt b.document b.element = some element ∧
    (v.operators = [] → v.isEditable element.content.tag = true → slot.operator.readable = true →
      slot.compiled.isLeaf = true → ∃ id, ⟨id, .push binding index⟩ ∈ element.listeners)
  /-- What the slot shows is to be seen, where no other slot writes too. -/
  shows : Index.get? slot.name Catalog.standard = some slot.operator →
    ∀ pair, b.declaration.pair? slot.name = some pair →
    (Operator.takesObject slot.name = true → ∃ entries, pair.expr = .object entries) →
    ∀ face value, (face, value) ∈
        Face.shown slot.name (pair.expr.value b.env (Accessor.value w.sight)) →
      ¬ w.Contested binding index b.document b.element face →
      ∀ element, w.elementAt b.document b.element = some element → element.content.look face = value

/-- A view without operators of its own installs the standard ones. -/
theorem Installed.standard {v : View} {index : Nat} {slot : Slot}
    (installed : w.Installed v binding b index slot) (standard : v.operators = []) :
    Index.get? slot.name Catalog.standard = some slot.operator :=
  v.catalog_standard standard ▸ installed.known

/-- A slot that takes an object shows on the faces that no other slot writes what its operator
makes of the element as it was at the start. -/
def Covers (start w : World σ) (binding : Ref .binding) (b : Binding) (index : Nat) (slot : Slot) :
    Prop :=
  Index.get? slot.name Catalog.standard = some slot.operator →
    Operator.takesObject slot.name = true → ∀ face,
    ¬ w.Contested binding index b.document b.element face →
      ∃ element, start.elementAt b.document b.element = some element ∧
        w.lookAt b.document b.element face =
          some ((slot.operator.apply (slot.compiled.value w.sight) element.content).look face)

variable {v : View} {other : Ref .binding} {index at_ : Nat} {face : Face} {editable : Bool}
  {start : World σ}

/-- A slot that writes a face still does after one more operator was applied. -/
theorem Writes.fit (writes : w.Writes other at_ document e face)
    (present : w.bindings.get? binding = some b) (editable : Bool) (name : String)
    (operator : Operator) (c : Compilation) :
    (w.fit binding b editable name operator c).Writes other at_ document e face := by
  obtain ⟨b₀, slot, there, live, onDocument, onElement, seated, affects⟩ := writes
  by_cases same : other = binding
  · subst same
    rw [present] at there
    cases there
    obtain ⟨subs, ids, row, -⟩ := row_fit editable name operator c present
    exact ⟨_, slot, row, live, onDocument, onElement,
      List.getElem?_append_left (List.getElem?_eq_some_iff.mp seated).1 ▸ seated, affects⟩
  · exact ⟨b₀, slot, ((onlyRow_fit binding b editable name operator c w).others same).trans there,
      live, onDocument, onElement, seated, affects⟩

/-- An operator that was just applied may be applied so again. -/
theorem writes_fit (present : w.bindings.get? binding = some b) (live : b.disposed = false)
    (compiled : b.declaration.compileOperator name b.env w.sight = .ok c) (editable : Bool)
    {content : Content}
    (changes : (operator.apply (c.compiled.value w.sight) content).look face ≠ content.look face) :
    (w.fit binding b editable name operator c).Writes binding b.slots.length b.document b.element
      face := by
  obtain ⟨subs, ids, row, -⟩ := row_fit editable name operator c present
  refine ⟨_, _, row, live, rfl, rfl, List.getElem?_concat_length,
    w.sight, c.compiled, content, ?_, changes⟩
  unfold Slot.current
  dsimp only
  split
  · rw [compiled]
    rfl
  · rfl

/-- What the new slot does not write shows as before. -/
theorem lookAt_fit (present : w.bindings.get? binding = some b) (live : b.disposed = false)
    (compiled : b.declaration.compileOperator name b.env w.sight = .ok c) (editable : Bool)
    {look : Json} (unwritten : ¬ (w.fit binding b editable name operator c).Writes binding
      b.slots.length document e face) (shows : w.lookAt document e face = some look) :
    (w.fit binding b editable name operator c).lookAt document e face = some look := by
  obtain ⟨element, there, rfl⟩ := Option.map_eq_some_iff.mp shows
  obtain ⟨element', there', content, -⟩ := elementAt_fit binding b editable name operator c there
  rw [lookAt_of_element there', content]
  split
  · rename_i here
    -- if the face looked different now, the new slot would write it
    refine congrArg some (Classical.byContradiction fun changes => unwritten ?_)
    rw [here.1, here.2]
    exact writes_fit present live compiled editable changes
  · rfl

theorem Installed.fit {b₀ : Binding} {slot : Slot} (installed : w.Installed v other b₀ at_ slot)
    (present : w.bindings.get? binding = some b) (live : b.disposed = false)
    (compiled : b.declaration.compileOperator name b.env w.sight = .ok c)
    (known : Index.get? name v.catalog = some operator)
    (distinct : (binding, b.slots.length) ≠ (other, at_)) (editable : Bool) :
    (w.fit binding b editable name operator c).Installed v other b₀ at_ slot where
  known := installed.known
  hears := by
    obtain ⟨pair, sight, c₀, found, compiles, holds, dirty, hears⟩ := installed.hears
    refine ⟨pair, sight, c₀, found, compiles, holds, dirty, fun a read m there => ?_⟩
    rw [(tables_fit binding b editable name operator c w).1] at there
    obtain ⟨s, hub, event, registered⟩ := hears a read m there
    exact ⟨s, hub, event, (continues_fit binding b editable name operator c w).stands registered⟩
  page := by
    obtain ⟨element, there, pushes⟩ := installed.page
    obtain ⟨element', there', content, heard, -⟩ :=
      elementAt_fit binding b editable name operator c there
    refine ⟨element', there', fun standard tagged readable leaf => ?_⟩
    have same : element'.content.tag = element.content.tag := by
      rw [content]
      split
      · exact Operator.tag_apply (v.catalog_standard standard ▸ known) _ _
      · rfl
    rw [same] at tagged
    obtain ⟨id, listens⟩ := pushes standard tagged readable leaf
    exact ⟨id, heard _ listens⟩
  shows standard pair found literal face value shown uncontested element' there' := by
    obtain ⟨element, there, -⟩ := installed.page
    rw [sight_fit] at shown
    have before : ¬ w.Contested other at_ b₀.document b₀.element face := by
      rintro ⟨third, at', apart, writes⟩
      exact uncontested ⟨third, at', apart, writes.fit present editable name operator c⟩
    have looked := installed.shows standard pair found literal face value shown before element there
    have still := lookAt_fit present live compiled editable
      (fun writes => uncontested ⟨binding, b.slots.length, distinct, writes⟩)
      (lookAt_of_element there face)
    rw [lookAt_of_element there', looked] at still
    exact Option.some.inj still

/-- Applying one more operator leaves covered what was so. -/
theorem Covers.fit {b₀ : Binding} {slot : Slot} (covers : start.Covers w other b₀ at_ slot)
    (present : w.bindings.get? binding = some b) (live : b.disposed = false)
    (compiled : b.declaration.compileOperator name b.env w.sight = .ok c)
    (distinct : (binding, b.slots.length) ≠ (other, at_)) (editable : Bool) (operator : Operator) :
    start.Covers (w.fit binding b editable name operator c) other b₀ at_ slot := by
  intro standard takes face uncontested
  have before : ¬ w.Contested other at_ b₀.document b₀.element face := by
    rintro ⟨third, at', apart, writes⟩
    exact uncontested ⟨third, at', apart, writes.fit present editable name operator c⟩
  obtain ⟨element, there, looked⟩ := covers standard takes face before
  refine ⟨element, there, ?_⟩
  rw [sight_fit]
  exact lookAt_fit present live compiled editable
    (fun writes => uncontested ⟨binding, b.slots.length, distinct, writes⟩) looked

/-- A slot covers what is as it was at the start. -/
theorem covers_fit (present : w.bindings.get? binding = some b)
    (there : start.elementAt b.document b.element = some element)
    (untouched : ∀ face, (∀ other at_, ¬ w.Writes other at_ b.document b.element face) →
      w.lookAt b.document b.element face = some (element.content.look face)) (editable : Bool) :
    start.Covers (w.fit binding b editable name operator c) binding b b.slots.length
      ⟨name, operator, c.compiled, c.compiled.isDirty, Collector.events (c.dependencies w.sight),
        0⟩ := by
  intro known takes face uncontested
  have unwritten : ∀ other at_, ¬ w.Writes other at_ b.document b.element face := by
    intro other at_ writes
    refine uncontested ⟨other, at_, ?_, writes.fit present editable name operator c⟩
    -- the slot was not there before
    rintro ⟨⟩
    obtain ⟨b', slot, present', -, -, -, seated, -⟩ := writes
    cases present.symm.trans present'
    exact absurd (List.getElem?_eq_some_iff.mp seated).1 (Nat.lt_irrefl _)
  obtain ⟨before, there', looked⟩ := Option.map_eq_some_iff.mp (untouched face unwritten)
  obtain ⟨after, there'', content, -⟩ := elementAt_fit binding b editable name operator c there'
  refine ⟨element, there, ?_⟩
  rw [lookAt_of_element there'', content, if_pos ⟨rfl, rfl⟩, sight_fit]
  exact congrArg some (Operator.look_apply_congr known takes looked)

/-- Whatever an attribute was read of for a compilation is depended on. -/
theorem mem_dependencies {a : Accessor} {m : Model σ} (read : a ∈ Expr.readings c)
    (present : w.models.get? a.model = some m) :
    ⟨m.hub, changeOf a.name⟩ ∈ c.dependencies w.sight := by
  refine Collector.mem_recordAll.mpr (Or.inl (List.mem_filterMap.mpr ⟨a, read, ?_⟩))
  rw [Accessor.dependency?, Run.sight_of_present present]
  rfl

theorem installed_fit (sound : w.Sound) (present : w.bindings.get? binding = some b)
    (compiled : b.declaration.compileOperator name b.env w.sight = .ok c)
    (known : Index.get? name v.catalog = some operator)
    (there : w.elementAt b.document b.element = some element)
    (editable_ : v.operators = [] → editable = v.isEditable element.content.tag) :
    (w.fit binding b editable name operator c).Installed v binding b b.slots.length
      ⟨name, operator, c.compiled, c.compiled.isDirty, Collector.events (c.dependencies w.sight),
        0⟩ := by
  obtain ⟨subs, ids, -, hears⟩ := row_fit editable name operator c present
  obtain ⟨element', there', content, heard, attends⟩ :=
    elementAt_fit binding b editable name operator c there
  rw [if_pos ⟨rfl, rfl⟩] at content
  obtain ⟨pair, found, compiles⟩ : ∃ pair, b.declaration.pair? name = some pair ∧
      pair.expr.compile b.selector b.env w.sight = .ok c := by
    unfold Declaration.compileOperator at compiled
    split at compiled
    · rename_i pair found
      exact ⟨pair, found, compiled⟩
    · cases compiled
  refine ⟨known, ⟨pair, w.sight, c, found, compiles, rfl, rfl, fun a read m here => ?_⟩,
    ⟨element', there', fun standard tagged readable leaf => ?_⟩, ?_⟩
  · rw [(tables_fit binding b editable name operator c w).1] at here
    obtain ⟨s, -, hub, event, registered⟩ := hears _ (mem_dependencies read here)
      (sound.wired.models _ m here).announced
    exact ⟨s, hub, event, registered⟩
  · rw [content, Operator.tag_apply (v.catalog_standard standard ▸ known)] at tagged
    exact attends (by rw [editable_ standard, tagged, readable, leaf]; rfl) rfl rfl
  · intro standard pair' found' literal face value shown _ element'' there''
    rw [there'] at there''
    cases there''
    cases found.symm.trans found'
    rw [sight_fit, ← Expr.value_of_compile compiles] at shown
    rw [content]
    refine Operator.look_apply standard (fun takes => ?_) shown _
    obtain ⟨entries, written⟩ := literal takes
    rw [Expr.value_of_compile compiles, written, Expr.value]
    exact Index.nodup_keys_ofEntries _

/-! ## Attaching -/

/-- What holds while the declarations of a view are attached, `first` being the first
binding that is new. -/
structure Attaches (start : World σ) (v : View) (env : Environment) (first : Nat)
    (w : World σ) : Prop where
  sound : w.Sound
  models : w.models = start.models
  views : w.views = start.views
  tags : ∀ e element, start.elementAt v.document e = some element →
    ∃ element', w.elementAt v.document e = some element' ∧
      (v.operators = [] → element'.content.tag = element.content.tag)
  rows : ∀ (binding : Ref .binding) b, first ≤ binding.index → w.bindings.get? binding = some b →
    b.document = v.document ∧ b.env = env ∧ b.disposed = false
  installed : ∀ (binding : Ref .binding) b, first ≤ binding.index →
    w.bindings.get? binding = some b → ∀ index slot, b.slots[index]? = some slot →
      w.Installed v binding b index slot ∧ start.Covers w binding b index slot
  /-- What no slot writes is as it was. -/
  untouched : ∀ document e face look, (∀ other at_, ¬ w.Writes other at_ document e face) →
    start.lookAt document e face = some look → w.lookAt document e face = some look

/-- The element is there, and it is editable if the view says so. -/
def Permits (start : World σ) (v : View) (e : Ref .element) (editable : Bool) : Prop :=
  ∃ element, start.elementAt v.document e = some element ∧
    (v.operators = [] → editable = v.isEditable element.content.tag)

/-- Slots write what they wrote when a binding is new. -/
theorem Writes.started (writes : w.Writes other at_ document e face) (new : Binding) :
    ({ w with bindings := w.bindings.insert new } : World σ).Writes other at_ document e face := by
  obtain ⟨b, slot, there, facts⟩ := writes
  exact ⟨b, slot, Table.get?_insert_some.mpr (Or.inr there), facts⟩

/-- A new binding disturbs no slot. -/
theorem Installed.started {b₀ : Binding} {slot : Slot} (installed : w.Installed v other b₀ at_ slot)
    (new : Binding) :
    ({ w with bindings := w.bindings.insert new } : World σ).Installed v other b₀ at_ slot where
  known := installed.known
  hears := installed.hears
  page := installed.page
  shows standard pair found literal face value shown uncontested :=
    installed.shows standard pair found literal face value shown fun ⟨third, at', apart, writes⟩ =>
      uncontested ⟨third, at', apart, writes.started new⟩

theorem Covers.started {b₀ : Binding} {slot : Slot} (covers : start.Covers w other b₀ at_ slot)
    (new : Binding) :
    start.Covers { w with bindings := w.bindings.insert new } other b₀ at_ slot :=
  fun standard takes face uncontested => covers standard takes face fun ⟨third, at', apart, writes⟩ =>
    uncontested ⟨third, at', apart, writes.started new⟩

/-- After one more operator was applied, a slot of a binding is one that it had, or the new
one. -/
theorem row_of_fit {editable : Bool} (present : w.bindings.get? binding = some b) {b' : Binding}
    (there : (w.fit binding b editable name operator c).bindings.get? other = some b') :
    ∃ b₀ slots subs ids, w.bindings.get? other = some b₀ ∧
      b' = { b₀ with slots := slots, subscriptions := subs, listeners := ids } ∧
      ∀ index slot, slots[index]? = some slot →
        b₀.slots[index]? = some slot ∧ (binding, b.slots.length) ≠ (other, index) ∨
        other = binding ∧ index = b.slots.length ∧ slot = ⟨name, operator, c.compiled,
          c.compiled.isDirty, Collector.events (c.dependencies w.sight), 0⟩ := by
  by_cases same : other = binding
  · subst same
    obtain ⟨subs, ids, row, -⟩ := row_fit editable name operator c present
    cases row.symm.trans there
    refine ⟨b, _, _, _, present, rfl, fun index slot seated => ?_⟩
    rcases Nat.lt_or_ge index b.slots.length with below | beyond
    · rw [List.getElem?_append_left below] at seated
      exact Or.inl ⟨seated, fun both => Nat.ne_of_gt below (Prod.ext_iff.mp both).2⟩
    · obtain ⟨inside, -⟩ := List.getElem?_eq_some_iff.mp seated
      rw [List.length_append, List.length_singleton] at inside
      obtain rfl : index = b.slots.length := by omega
      rw [List.getElem?_concat_length] at seated
      exact Or.inr ⟨rfl, rfl, (Option.some.inj seated).symm⟩
  · have was := ((onlyRow_fit binding b editable name operator c w).others same).symm.trans there
    exact ⟨b', _, _, _, was, rfl, fun index slot seated =>
      Or.inl ⟨seated, fun both => same (Prod.ext_iff.mp both).1.symm⟩⟩

theorem endures_attaches (start : World σ) (v : View) (env : Environment) (first : Nat) :
    Run.Endures env v.catalog v.document first (Permits start v)
      (Attaches start v env first) where
  started {w e declaration} attaches := by
    refine ⟨(Run.apart_insertBinding _ w rfl).sound attaches.sound, attaches.models, attaches.views,
      attaches.tags, fun binding b new there => ?_, fun binding b new there index slot seated => ?_,
      fun document at_ face look unwritten => attaches.untouched document at_ face look
        fun other index writes => unwritten other index (writes.started _)⟩
    · rcases Table.get?_insert_some.mp there with ⟨-, rfl⟩ | was
      · exact ⟨rfl, rfl, rfl⟩
      · exact attaches.rows binding b new was
    · rcases Table.get?_insert_some.mp there with ⟨-, rfl⟩ | was
      · cases seated
      · obtain ⟨installed, covers⟩ := attaches.installed binding b new was index slot seated
        exact ⟨installed.started _, covers.started _⟩
  fitted {w binding b name operator c} attaches present new onDocument names known compiled
      editable permitted := by
    obtain ⟨-, -, live⟩ := attaches.rows binding b new present
    obtain ⟨models, views, -⟩ := tables_fit binding b editable name operator c w
    rw [← names] at compiled
    refine ⟨(Run.apart_fit editable name operator c present live).sound attaches.sound,
      models.trans attaches.models, views.trans attaches.views, fun e element there => ?_,
      fun other b' new' there => ?_, fun other b' new' there index slot seated => ?_,
      fun document e face look unwritten shows => ?_⟩
    · obtain ⟨element₁, there₁, tag₁⟩ := attaches.tags e element there
      obtain ⟨element₂, there₂, content, -⟩ :=
        elementAt_fit binding b editable name operator c there₁
      refine ⟨element₂, there₂, fun standard => ?_⟩
      rw [← tag₁ standard, content]
      split
      · exact Operator.tag_apply (v.catalog_standard standard ▸ known) _ _
      · rfl
    · obtain ⟨b₀, slots, subs, ids, was, rfl, -⟩ := row_of_fit present there
      exact attaches.rows other b₀ new' was
    · obtain ⟨b₀, slots, subs, ids, was, rfl, one⟩ := row_of_fit present there
      rcases one index slot seated with ⟨old, distinct⟩ | ⟨rfl, rfl, rfl⟩
      · obtain ⟨installed, covers⟩ := attaches.installed other b₀ new' was index slot old
        have kept := installed.fit present live compiled known distinct editable
        exact ⟨⟨kept.known, kept.hears, kept.page, kept.shows⟩,
          covers.fit present live compiled distinct editable operator⟩
      · cases present.symm.trans was
        obtain ⟨element, there, editable_⟩ := permitted
        obtain ⟨element', there', tag⟩ := attaches.tags _ element there
        rw [← onDocument] at there there'
        have added := installed_fit attaches.sound present compiled known there' fun standard =>
          tag standard ▸ editable_ standard
        exact ⟨⟨added.known, added.hears, added.page, added.shows⟩,
          covers_fit present there (fun face unwritten =>
            attaches.untouched _ _ face _ unwritten (lookAt_of_element there face)) editable⟩
    · exact lookAt_fit present live compiled editable (unwritten _ _)
        (attaches.untouched document e face look
          (fun other index writes => unwritten other index
            (writes.fit present editable name operator c)) shows)

theorem Attaches.permits {env : Environment} {first : Nat} (attaches : Attaches start v env first w)
    (there : start.elementAt v.document e = some element) :
    Permits start v e (v.isEditable (Run.tagOf w v.document e)) := by
  obtain ⟨element', there', tag⟩ := attaches.tags e element there
  refine ⟨element, there, fun standard => ?_⟩
  rw [← tag standard, Run.tagOf]
  unfold elementAt at there'
  rw [there']

end World

/-! ## Binding a view -/

/-- A selector finds elements that exist. -/
theorem Document.isSome_of_query {d : Document} {top e : Ref .element} {selector : String}
    (found : d.query top selector = some e) : (d.get? e).isSome := by
  unfold query at found
  dsimp only at found
  split at found
  · cases found
  · have accepted := List.find?_some found
    unfold accepts at accepted
    split at accepted
    · cases accepted
    · rw [Bool.and_eq_true, fits] at accepted
      split at accepted
      · rename_i element there
        rw [there]
        rfl
      · cases accepted.1

namespace Run

variable {s t : State σ} {v : View} {view : Ref .view} {env : Environment}

theorem resolveAll_found {declarations : List (String × String)}
    {resolved : List (Ref .element × Resolved)}
    (ended : (resolveAll v env declarations).result s = (.ok resolved, t)) :
    ∀ entry ∈ resolved, ∃ element, s.world.elementAt v.document entry.1 = some element := by
  induction declarations generalizing s resolved with
  | nil =>
      cases ended
      exact nofun
  | cons declaration rest ih =>
      obtain ⟨selector, text⟩ := declaration
      rw [resolveAll, result_world_bind] at ended
      split at ended
      · rw [result_alter_bind] at ended
        intro entry listed
        exact ih ended entry listed
      · rename_i e found
        obtain ⟨d, present, query⟩ := Option.bind_eq_some_iff.mp found
        obtain ⟨element, there⟩ := Option.isSome_iff_exists.mp (Document.isSome_of_query query)
        obtain ⟨first, r, given, ended⟩ := bind_ok ended
        rcases accepted : resolve selector text v.catalog env with error | first'
        · rw [accepted] at given
          cases given
        · rw [accepted] at given
          cases given
          obtain ⟨others, r', resolvedRest, ended⟩ := bind_ok ended
          cases ended
          intro entry listed
          rcases List.mem_cons.mp listed with rfl | later
          · exact ⟨element, Option.bind_eq_some_iff.mpr ⟨d, present, there⟩⟩
          · exact ih resolvedRest entry later

/-- What a view leaves behind when it was bound. -/
structure Wires (view : Ref .view) (v : View) (before after : World σ) : Prop where
  sound : after.Sound
  models : after.models = before.models
  bindings : ∃ bindings, after.views.get? view = some { v with bindings := bindings } ∧
    ∀ binding ∈ bindings, ∀ b, after.bindings.get? binding = some b →
      b.document = v.document ∧ b.env = environmentOf before v.model ∧
        ∀ index slot, b.slots[index]? = some slot →
          after.Installed v binding b index slot ∧ before.Covers after binding b index slot

/-- What is known of a slot of the view. -/
theorem Wires.slot {before after : World σ} {binding : Ref .binding} {b : Binding} {index : Nat}
    {slot : Slot} (wires : Wires view v before after)
    (listed : ∃ v', after.views.get? view = some v' ∧ binding ∈ v'.bindings)
    (present : after.bindings.get? binding = some b) (seated : b.slots[index]? = some slot) :
    b.document = v.document ∧ b.env = environmentOf before v.model ∧
      after.Installed v binding b index slot ∧ before.Covers after binding b index slot := by
  obtain ⟨v', there, among⟩ := listed
  obtain ⟨bindings, row, slots⟩ := wires.bindings
  cases row.symm.trans there
  obtain ⟨document, names, slots⟩ := slots binding among b present
  exact ⟨document, names, slots index slot seated⟩

/-- Before anything is attached there is nothing to say of new bindings. -/
theorem attaches_start {w : World σ} (sound : w.Sound) (v : View) (env : Environment) :
    w.Attaches v env w.bindings.rows.length w := by
  have none : ∀ (binding : Ref .binding) b, w.bindings.rows.length ≤ binding.index →
      w.bindings.get? binding ≠ some b :=
    fun _ _ beyond present => absurd (Table.lt_of_get? present) (Nat.not_lt.mpr beyond)
  exact ⟨sound, rfl, rfl, fun e element there => ⟨element, there, fun _ => rfl⟩,
    fun binding b new present => absurd present (none binding b new),
    fun binding b new present => absurd present (none binding b new),
    fun _ _ _ _ _ => id⟩

/-- A bound view is wired to its model, and shows it. -/
theorem wires_bindView (sound : s.world.Sound) (present : s.world.views.get? view = some v)
    (ended : (bindView view).result s = (.ok (), t)) :
    Wires view v s.world t.world := by
  have unboundSound := (World.apart_unbindView view s.world).sound sound
  have unboundModels := World.models_unbindView view s.world
  have unboundView := World.view_unbindView present
  by_cases listed : v.declarations = []
  · rw [result_bindView_nil present listed] at ended
    cases ended
    exact ⟨unboundSound, unboundModels, [], unboundView, nofun⟩
  rw [result_bindView present listed] at ended
  obtain ⟨resolved, r, accepted, ended⟩ := bind_ok ended
  obtain ⟨bindings, r', attached, ended⟩ := bind_ok ended
  cases ended
  have found := resolveAll_found accepted
  cases resolveAll_ends { v with bindings := [] } (environmentOf s.world v.model) v.declarations
    (s.alter (.unbindView view)) with
  | badly entries remarks error refused _ =>
      rw [accepted] at refused
      cases refused
  | well entries remarks resolved' accepted' paired =>
      rw [accepted] at accepted'
      cases accepted'
      have noted : (s.world.unbindView view).Leaves ((s.world.unbindView view).noting entries) :=
        .of_tables rfl rfl rfl
      have endures := World.endures_attaches ((s.world.unbindView view).noting entries)
        { v with bindings := [] } (environmentOf s.world v.model)
        (s.world.unbindView view).bindings.rows.length
      have permitted : ∀ entry ∈ resolved, ∀ w : World σ,
          ((s.world.unbindView view).noting entries).Attaches { v with bindings := [] }
            (environmentOf s.world v.model) (s.world.unbindView view).bindings.rows.length w →
          World.Permits ((s.world.unbindView view).noting entries) { v with bindings := [] } entry.1
            (v.isEditable (tagOf w v.document entry.1)) := by
        intro entry among w attaches
        obtain ⟨element, there⟩ := found entry among
        exact attaches.permits there
      obtain ⟨bindings', w, attached', attaches, new, -⟩ := attachAll_ok endures
        paired.attachable permitted (s := (s.alter (.unbindView view)).alter (.noting entries))
        (attaches_start (noted.sound unboundSound) _ _) (Nat.le_refl _)
      rw [attached] at attached'
      cases attached'
      refine ⟨World.Leaves.sound ?_ attaches.sound, attaches.models.trans unboundModels,
        bindings, ?_, fun binding among b there => ?_⟩
      · exact .of_tables rfl rfl rfl
      · show (w.views.update view _).get? view = _
        rw [Table.get?_update_self, attaches.views]
        show ((s.world.unbindView view).views.get? view).map _ = _
        rw [unboundView]
        rfl
      · obtain ⟨onDocument, names, -⟩ := attaches.rows binding b (new binding among) there
        refine ⟨onDocument, names, fun index slot seated => ?_⟩
        obtain ⟨installed, covers⟩ :=
          attaches.installed binding b (new binding among) there index slot seated
        refine ⟨⟨installed.known, installed.hears, installed.page, installed.shows⟩,
          fun standard takes face uncontested => ?_⟩
        obtain ⟨element, there, looked⟩ := covers standard takes face uncontested
        obtain ⟨element', there', same⟩ := World.elementAt_of_pages
          (World.pages_unbindView view s.world).symm there
        exact ⟨element', there', same ▸ looked⟩

end Run

end LiveBinding
