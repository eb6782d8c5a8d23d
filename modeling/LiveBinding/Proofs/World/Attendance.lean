/-
# LiveBinding.Proofs.World.Attendance -- who listens to edits for whom

A slot that pushes what is edited listens to its element.  On a document that is kept only
the slots of live bindings do so, each by an identifier that its binding holds and on the
element that it has (`Attends`).  So when a binding is disposed none of its listeners is
left there.

Identifiers of documents are like those of hubs: they only ascend and are never given out
twice, so whoever is gone stays gone (`DocumentsLast`).
-/
import LiveBinding.Proofs.World.Kept
import LiveBinding.Proofs.World.Tenure

namespace LiveBinding

set_option autoImplicit false

variable {σ : Type}

namespace World

/-- Whoever listens to edits for a slot does so for a live binding, and the identifiers that
a binding holds are those of its own listeners. -/
structure Attends (w : World σ) : Prop where
  numbered : ∀ document d, w.documents.get? document = some d → d.Numbered
  kept : ∀ document, w.keepsDocument document = true → (w.documents.get? document).isSome
  there : ∀ binding b, w.bindings.get? binding = some b → (w.documents.get? b.document).isSome
  pushes : ∀ document d e l binding slot, w.documents.get? document = some d →
    w.keepsDocument document = true → l ∈ d.listeners e → l.reaction = .push binding slot →
      ∃ b, w.bindings.get? binding = some b ∧ b.disposed = false ∧ b.document = document ∧
        b.element = e ∧ l.id ∈ b.listeners
  holds : ∀ binding b d id, w.bindings.get? binding = some b →
    w.documents.get? b.document = some d → id ∈ b.listeners →
      id < d.nextListener ∧ ∀ e, ∀ l ∈ d.listeners e, l.id = id →
        ∃ slot, l.reaction = .push binding slot

def DocumentsLast (v w : World σ) : Prop :=
  ∀ document d, v.documents.get? document = some d →
    ∃ d', w.documents.get? document = some d' ∧ d.GoesOn d'

variable {u v w : World σ} {binding : Ref .binding} {b : Binding}

theorem DocumentsLast.refl (w : World σ) : w.DocumentsLast w :=
  fun _ d present => ⟨d, present, (Document.Fewer.refl d).goesOn⟩

theorem DocumentsLast.trans (first : u.DocumentsLast v) (then_ : v.DocumentsLast w) :
    u.DocumentsLast w := by
  intro document d present
  obtain ⟨d', present', on⟩ := first document d present
  obtain ⟨d'', present'', onThen⟩ := then_ document d' present'
  exact ⟨d'', present'', on.trans onThen⟩

instance : IsPreorder (World σ) DocumentsLast where
  refl := DocumentsLast.refl
  trans _ _ _ := DocumentsLast.trans

theorem DocumentsLast.of_eq (same : w.documents = v.documents) : v.DocumentsLast w :=
  fun _ d present => ⟨d, by rw [same]; exact present, (Document.Fewer.refl d).goesOn⟩

theorem documentsLast_edit (document : Ref .document) {f : Document → Document}
    (on : ∀ d : Document, d.GoesOn (f d)) (same : w.documents = v.documents.update document f) :
    v.DocumentsLast w := by
  intro other d present
  rw [same]
  by_cases here : other = document
  · subst here
    exact ⟨f d, by rw [Table.get?_update_self, present]; rfl, on d⟩
  · exact ⟨d, by rw [Table.get?_update_of_ne _ _ here, present], (Document.Fewer.refl d).goesOn⟩

/-! ## Applying an operator for the first time -/

/-- What becomes of the document of a binding, and what the binding holds then, when one more
operator is applied: nobody new listens, or the new slot does. -/
theorem attends_fit (editable : Bool) (name : String) (operator : Operator) (c : Compilation)
    (present : w.bindings.get? binding = some b) {d : Document}
    (there : w.documents.get? b.document = some d) :
    ∃ (subs : List Subscription) (ids : List Nat) (slot : Slot) (d' : Document),
      (w.fit binding b editable name operator c).bindings.get? binding = some { b with
        slots := b.slots ++ [slot]
        subscriptions := b.subscriptions ++ subs
        listeners := b.listeners ++ ids } ∧
      (w.fit binding b editable name operator c).documents =
        w.documents.update b.document (fun _ => d') ∧
      ((ids = [] ∧ d.Fewer d') ∨ ∃ amended, d.Fewer amended ∧ ids = [d.nextListener] ∧
        d' = amended.addListener b.element (.push binding b.slots.length)) := by
  let applied := w.editDocument b.document
    (.amend b.element (operator.apply (c.compiled.value w.sight)))
  have amended := Document.fewer_amend b.element (operator.apply (c.compiled.value w.sight)) d
  let slot : Slot := ⟨name, operator, c.compiled, c.compiled.isDirty,
    Collector.events (c.dependencies w.sight), 0⟩
  have documents := (tables_enlistAll binding b.slots.length (c.dependencies w.sight)
    (w.equip binding b editable name operator c)).2.2.2
  have equipped : ∃ (ids : List Nat) (d' : Document),
      (w.equip binding b editable name operator c).bindings.get? binding = some { b with
        slots := b.slots ++ [slot]
        listeners := b.listeners ++ ids } ∧
      (w.equip binding b editable name operator c).documents =
        w.documents.update b.document (fun _ => d') ∧
      ((ids = [] ∧ d.Fewer d') ∨ ∃ amended, d.Fewer amended ∧ ids = [d.nextListener] ∧
        d' = amended.addListener b.element (.push binding b.slots.length)) := by
    have here : ∀ f : Document → Document,
        w.documents.update b.document f = w.documents.update b.document fun _ => f d := by
      intro f
      refine Table.update_congr fun old was => ?_
      rw [there] at was
      cases was
      rfl
    unfold equip
    dsimp only
    by_cases attending : (editable && operator.readable && c.compiled.isLeaf) = true
    · rw [if_pos attending]
      have found : applied.documents.get? b.document =
          some (d.amend b.element (operator.apply (c.compiled.value w.sight))) := by
        show (w.documents.update b.document _).get? b.document = _
        rw [Table.get?_update_self, there]
        rfl
      have listens : applied.listen b.document b.element (.push binding b.slots.length) =
          (d.nextListener, applied.editDocument b.document
            (.addListener b.element (.push binding b.slots.length))) := by
        rw [listen, found]
        rfl
      refine ⟨[d.nextListener], (d.amend b.element (operator.apply
        (c.compiled.value w.sight))).addListener b.element (.push binding b.slots.length),
        ?_, ?_, Or.inr ⟨_, amended, rfl, rfl⟩⟩
      · rw [attend, listens]
        show ((w.bindings.update binding _).update binding _).get? binding = _
        rw [Table.get?_update_self, Table.get?_update_self, present]
        rfl
      · rw [attend, listens]
        exact (Table.update_update _ _ _ _).trans (here _)
    · rw [if_neg attending]
      refine ⟨[], _, ?_, here _, Or.inl ⟨rfl, amended⟩⟩
      show (w.bindings.update binding _).get? binding = _
      rw [Table.get?_update_self, present, List.append_nil]
      rfl
  obtain ⟨ids, d', row, changed, listens⟩ := equipped
  obtain ⟨subs, rowThen, -⟩ := enlistAll_row b.slots.length row (c.dependencies w.sight)
  exact ⟨subs, ids, slot, d', rowThen, documents.trans changed, listens⟩

/-- Who listens on a document then listened before, or is the new slot. -/
theorem listens_fit {d d' : Document} {ids : List Nat} {e : Ref .element} {reaction : EditReaction}
    (numbered : d.Numbered) (listens : (ids = [] ∧ d.Fewer d') ∨ ∃ amended, d.Fewer amended ∧
      ids = [d.nextListener] ∧ d' = amended.addListener e reaction) :
    d'.Numbered ∧ d.GoesOn d' ∧
      (∀ e', ∀ l ∈ d'.listeners e', l ∈ d.listeners e' ∨
        e' = e ∧ l.id ∈ ids ∧ l.reaction = reaction) ∧
      ∀ id ∈ ids, id = d.nextListener ∧ id < d'.nextListener := by
  rcases listens with ⟨rfl, fewer⟩ | ⟨amended, fewer, rfl, rfl⟩
  · exact ⟨numbered.fewer fewer, fewer.goesOn, fun e' l listed => Or.inl (fewer.listed e' l listed),
      nofun⟩
  · refine ⟨(numbered.fewer fewer).addListener _ _,
      fewer.goesOn.trans (Document.goesOn_addListener _ _ _), fun e' l listed => ?_, ?_⟩
    · rcases Document.mem_addListener listed with before | ⟨rfl, rfl⟩
      · exact Or.inl (fewer.listed e' l before)
      · exact Or.inr ⟨rfl, by rw [fewer.next]; exact List.mem_singleton.mpr rfl, rfl⟩
    · intro id among
      rw [List.mem_singleton.mp among]
      exact ⟨rfl, by rw [← fewer.next]; exact Nat.lt_succ_self _⟩

/-! ## Steps -/

namespace Attends

theorem of_same (attends : v.Attends) (documents : w.documents = v.documents)
    (bindings : w.bindings = v.bindings)
    (kept : ∀ document, w.keepsDocument document = true → v.keepsDocument document = true) :
    w.Attends where
  numbered := documents ▸ attends.numbered
  kept document keeps := documents ▸ attends.kept document (kept document keeps)
  there := by
    rw [documents, bindings]
    exact attends.there
  pushes document d e l binding slot present keeps listed same := by
    rw [documents] at present
    rw [bindings]
    exact attends.pushes document d e l binding slot present (kept document keeps) listed same
  holds := by
    rw [documents, bindings]
    exact attends.holds

/-- Bindings may change in what does not show in their wiring. -/
theorem rewired (attends : v.Attends) (documents : w.documents = v.documents)
    (held : w.held = v.held) (views : w.views = v.views)
    (rows : ∀ binding b, w.bindings.get? binding = some b →
      ∃ old, v.bindings.get? binding = some old ∧ b.wiring = old.wiring)
    (rowsThen : ∀ binding b, v.bindings.get? binding = some b →
      ∃ new, w.bindings.get? binding = some new ∧ new.wiring = b.wiring) : w.Attends where
  numbered := documents ▸ attends.numbered
  kept document keeps := by
    rw [keepsDocument_of_same held views] at keeps
    exact documents ▸ attends.kept document keeps
  there binding b present := by
    obtain ⟨old, was, same⟩ := rows binding b present
    rw [documents, show b.document = old.document from (congrArg Binding.document same :)]
    exact attends.there binding old was
  pushes document d e l binding slot present keeps listed same := by
    rw [documents] at present
    rw [keepsDocument_of_same held views] at keeps
    obtain ⟨b, was, live, on, at_, among⟩ :=
      attends.pushes document d e l binding slot present keeps listed same
    obtain ⟨new, there, wired⟩ := rowsThen binding b was
    have listeners : new.listeners = b.listeners := (congrArg Binding.listeners wired :)
    exact ⟨new, there, (congrArg Binding.disposed wired).trans live,
      (congrArg Binding.document wired).trans on, (congrArg Binding.element wired).trans at_,
      by rwa [listeners]⟩
  holds binding b d id present there among := by
    obtain ⟨old, was, wired⟩ := rows binding b present
    rw [documents, show b.document = old.document from (congrArg Binding.document wired :)] at there
    rw [show b.listeners = old.listeners from (congrArg Binding.listeners wired :)] at among
    exact attends.holds binding old d id was there among

/-- A document may go on, as long as no slot listens that did not. -/
theorem edited (attends : v.Attends) (document : Ref .document) {f : Document → Document}
    (numbered : ∀ d : Document, d.Numbered → (f d).Numbered)
    (on : ∀ d : Document, d.GoesOn (f d))
    (old : ∀ (d : Document) e l binding slot, l ∈ (f d).listeners e →
      l.reaction = .push binding slot → l ∈ d.listeners e) :
    (v.editDocument document f).Attends := by
  have rows : ∀ other d', (v.documents.update document f).get? other = some d' →
      ∃ d, v.documents.get? other = some d ∧ (d' = d ∨ d' = f d) := by
    intro other d' present
    obtain ⟨d, was, rfl⟩ := Table.get?_update_some present
    refine ⟨d, was, ?_⟩
    split
    · exact Or.inr rfl
    · exact Or.inl rfl
  refine ⟨?_, ?_, ?_, ?_, ?_⟩
  · intro other d' present
    obtain ⟨d, was, rfl | rfl⟩ := rows other d' present
    · exact attends.numbered other d' was
    · exact numbered d (attends.numbered other d was)
  · exact fun other keeps => Table.isSome_update (attends.kept other keeps)
  · exact fun binding b present => Table.isSome_update (attends.there binding b present)
  · intro other d' e l binding slot present keeps listed same
    obtain ⟨d, was, rfl | rfl⟩ := rows other d' present
    · exact attends.pushes other d' e l binding slot was keeps listed same
    · exact attends.pushes other d e l binding slot was keeps (old d e l binding slot listed same) same
  · intro binding b d' id present here among
    obtain ⟨d, was, rfl | rfl⟩ := rows b.document d' here
    · exact attends.holds binding b d' id present was among
    · obtain ⟨below, own⟩ := attends.holds binding b d id present was among
      refine ⟨Nat.lt_of_lt_of_le below (on d).next, fun e l listed same => ?_⟩
      exact own e l ((on d).listed e l listed (by omega)) same

theorem openDocument (attends : v.Attends) : v.openDocument.2.Attends := by
  have rows : ∀ other d, (v.documents.insert .empty).get? other = some d →
      v.documents.get? other = some d ∨ d = .empty ∧ other = v.documents.fresh := by
    intro other d present
    rcases Table.get?_insert_some.mp present with ⟨here, rfl⟩ | old
    · exact Or.inr ⟨rfl, here⟩
    · exact Or.inl old
  have there : ∀ other, (v.documents.get? other).isSome →
      ((v.documents.insert .empty).get? other).isSome := by
    intro other there
    obtain ⟨d, present⟩ := Option.isSome_iff_exists.mp there
    rw [Table.get?_insert_some.mpr (Or.inr present)]
    rfl
  refine ⟨?_, ?_, ?_, ?_, ?_⟩
  · intro other d present
    rcases rows other d present with old | ⟨rfl, -⟩
    · exact attends.numbered other d old
    · exact .empty
  · intro other keeps
    rcases keepsDocument_iff.mp keeps with held | viewed
    · rcases List.mem_cons.mp held with here | before
      · cases here
        show ((v.documents.insert .empty).get? v.documents.fresh).isSome
        rw [Table.get?_insert_fresh]
        rfl
      · exact there other (attends.kept other (keepsDocument_iff.mpr (Or.inl before)))
    · exact there other (attends.kept other (keepsDocument_iff.mpr (Or.inr viewed)))
  · exact fun binding b present => there _ (attends.there binding b present)
  · intro other d e l binding slot present keeps listed same
    rcases rows other d present with old | ⟨rfl, -⟩
    · refine attends.pushes other d e l binding slot old ?_ listed same
      rcases keepsDocument_iff.mp keeps with held | viewed
      · rcases List.mem_cons.mp held with here | before
        · cases here
          rw [Table.get?_fresh] at old
          cases old
        · exact keepsDocument_iff.mpr (Or.inl before)
      · exact keepsDocument_iff.mpr (Or.inr viewed)
    · exact absurd listed Document.not_mem_listeners_empty
  · intro binding b d id present here among
    rcases rows b.document d here with old | ⟨-, same⟩
    · exact attends.holds binding b d id present old among
    · have found := attends.there binding b present
      rw [same, Table.get?_fresh] at found
      cases found

theorem start (attends : v.Attends) {document : Ref .document} (element : Ref .element)
    (declaration : Declaration) (env : Environment) (kept : v.keepsDocument document = true) :
    ({ v with bindings := v.bindings.insert (.start document element declaration env) } :
      World σ).Attends where
  numbered := attends.numbered
  kept := attends.kept
  there binding b present := by
    rcases Table.get?_insert_some.mp present with ⟨-, rfl⟩ | old
    · exact attends.kept document kept
    · exact attends.there binding b old
  pushes other d e l binding slot present keeps listed same := by
    obtain ⟨b, was, facts⟩ := attends.pushes other d e l binding slot present keeps listed same
    exact ⟨b, Table.get?_insert_some.mpr (Or.inr was), facts⟩
  holds binding b d id present here among := by
    rcases Table.get?_insert_some.mp present with ⟨-, rfl⟩ | old
    · cases among
    · exact attends.holds binding b d id old here among

/-- A slot that is added may listen for its binding. -/
theorem fit (attends : v.Attends) (present : v.bindings.get? binding = some b)
    (live : b.disposed = false) (editable : Bool) (name : String) (operator : Operator)
    (c : Compilation) : (v.fit binding b editable name operator c).Attends := by
  obtain ⟨d, there⟩ := Option.isSome_iff_exists.mp (attends.there binding b present)
  obtain ⟨subs, ids, slot, d', row, documents, listens⟩ :=
    attends_fit editable name operator c present there
  have tables := tables_fit binding b editable name operator c v
  have only := onlyRow_fit binding b editable name operator c v
  have keeps : ∀ document, (v.fit binding b editable name operator c).keepsDocument document =
      v.keepsDocument document := keepsDocument_of_same tables.2.2 tables.2.1
  generalize v.fit binding b editable name operator c = w at row documents only keeps ⊢
  have numbered := attends.numbered b.document d there
  obtain ⟨numberedThen, on, who, given⟩ := listens_fit numbered listens
  have pages : ∀ document found, w.documents.get? document = some found →
      document = b.document ∧ found = d' ∨
        document ≠ b.document ∧ v.documents.get? document = some found := by
    intro document found present
    rw [documents] at present
    obtain ⟨old, was, rfl⟩ := Table.get?_update_some present
    by_cases same : document = b.document
    · exact Or.inl ⟨same, if_pos same⟩
    · exact Or.inr ⟨same, by rw [if_neg same]; exact was⟩
  have page : ∀ document, (v.documents.get? document).isSome →
      (w.documents.get? document).isSome := by
    intro document isThere
    rw [documents]
    exact Table.isSome_update isThere
  have rows : ∀ other found, w.bindings.get? other = some found →
      ∃ old, v.bindings.get? other = some old ∧ found.document = old.document ∧
        ∀ id ∈ found.listeners, id ∈ old.listeners ∨ other = binding ∧ id ∈ ids := by
    intro other found here
    by_cases same : other = binding
    · subst same
      rw [row] at here
      cases here
      exact ⟨b, present, rfl, fun id among => (List.mem_append.mp among).imp_right fun new => ⟨rfl, new⟩⟩
    · rw [only.others same] at here
      exact ⟨found, here, rfl, fun _ => Or.inl⟩
  refine ⟨?_, fun document kept => page document (attends.kept document (keeps document ▸ kept)), ?_,
    ?_, ?_⟩
  · intro document found here
    rcases pages document found here with ⟨-, rfl⟩ | ⟨-, was⟩
    · exact numberedThen
    · exact attends.numbered document found was
  · intro other found here
    obtain ⟨old, was, same, -⟩ := rows other found here
    rw [same]
    exact page _ (attends.there other old was)
  · intro document found e l other slot' here kept listed push
    rw [keeps] at kept
    have before : ∀ {old : Document}, v.documents.get? document = some old → l ∈ old.listeners e →
        ∃ b', w.bindings.get? other = some b' ∧ b'.disposed = false ∧ b'.document = document ∧
          b'.element = e ∧ l.id ∈ b'.listeners := by
      intro old was on
      obtain ⟨b', row', facts⟩ := attends.pushes document old e l other slot' was kept on push
      by_cases same : other = binding
      · subst same
        rw [present] at row'
        cases row'
        exact ⟨_, row, facts.1, facts.2.1, facts.2.2.1, List.mem_append_left _ facts.2.2.2⟩
      · exact ⟨b', by rw [only.others same]; exact row', facts⟩
    rcases pages document found here with ⟨rfl, rfl⟩ | ⟨-, was⟩
    · rcases who e l listed with old | ⟨rfl, new, reacts⟩
      · exact before there old
      · rw [reacts] at push
        cases push
        exact ⟨_, row, live, rfl, rfl, List.mem_append_right _ new⟩
    · exact before was listed
  · intro other found page' id here at_ among
    obtain ⟨old, was, same, ids'⟩ := rows other found here
    rw [same] at at_
    rcases pages old.document page' at_ with ⟨onPage, rfl⟩ | ⟨elsewhere, wasPage⟩
    · rcases ids' id among with mine | ⟨rfl, new⟩
      · obtain ⟨below, own⟩ := attends.holds other old d id was (onPage ▸ there) mine
        refine ⟨Nat.lt_of_lt_of_le below on.next, fun e l listed same' => ?_⟩
        exact own e l (on.listed e l listed (same' ▸ below)) same'
      · obtain ⟨fresh, below⟩ := given id new
        refine ⟨below, fun e l listed same' => ?_⟩
        rcases who e l listed with before | ⟨-, -, reacts⟩
        · exact absurd (same'.trans fresh) (Nat.ne_of_lt (numbered.below e l before))
        · exact ⟨_, reacts⟩
    · rcases ids' id among with mine | ⟨rfl, -⟩
      · exact attends.holds other old page' id was wasPage mine
      · rw [present] at was
        cases was
        exact absurd rfl elsewhere

/-- A binding that is disposed takes its listeners off its element, where its document is
kept. -/
theorem dispose (attends : v.Attends) (binding : Ref .binding) : (v.dispose binding).Attends := by
  rcases present : v.bindings.get? binding with _ | b
  · rw [World.dispose, present]
    exact attends
  cases disposed : b.disposed with
  | true => rwa [dispose_of_disposed present disposed]
  | false =>
      obtain ⟨bindings, -, -, views, held, documents⟩ := disposed_dispose present disposed
      have keeps := keepsDocument_of_same held views
      generalize v.dispose binding = w at bindings documents keeps ⊢
      -- what is left of a document, and of those who listened for the binding
      have pages : ∀ document found, w.documents.get? document = some found →
          ∃ d, v.documents.get? document = some d ∧ d.Fewer found ∧
            (document = b.document → v.keepsDocument document = true →
              ∀ l ∈ found.listeners b.element, l.id ∉ b.listeners) := by
        intro document found here
        rw [documents] at here
        by_cases kept : v.keepsDocument b.document = true
        · rw [if_pos kept] at here
          obtain ⟨d, was, rfl⟩ := Table.get?_update_some here
          refine ⟨d, was, ?_, fun same _ l listed => ?_⟩
          · split
            · exact Document.fewer_removeListeners _ _ d
            · exact .refl d
          · rw [if_pos same] at listed
            exact Document.not_mem_of_mem_removeListeners listed
        · rw [if_neg kept] at here
          exact ⟨found, here, .refl found, fun same keeps => absurd (same ▸ keeps) kept⟩
      have page : ∀ document, (v.documents.get? document).isSome →
          (w.documents.get? document).isSome := by
        intro document isThere
        rw [documents]
        split
        · exact Table.isSome_update isThere
        · exact isThere
      have rows : ∀ other found, w.bindings.get? other = some found →
          ∃ old, v.bindings.get? other = some old ∧ found.document = old.document ∧
            (∀ id ∈ found.listeners, id ∈ old.listeners) := by
        intro other found here
        rw [bindings] at here
        obtain ⟨old, was, rfl⟩ := Table.get?_update_some here
        refine ⟨old, was, ?_⟩
        split
        · exact ⟨rfl, fun _ none => absurd none List.not_mem_nil⟩
        · exact ⟨rfl, fun _ => id⟩
      refine ⟨?_, fun document kept => page document (attends.kept document (keeps document ▸ kept)),
        ?_, ?_, ?_⟩
      · intro document found here
        obtain ⟨d, was, fewer, -⟩ := pages document found here
        exact (attends.numbered document d was).fewer fewer
      · intro other found here
        obtain ⟨old, was, same, -⟩ := rows other found here
        rw [same]
        exact page _ (attends.there other old was)
      · intro document found e l other slot here kept listed push
        rw [keeps] at kept
        obtain ⟨d, was, fewer, left⟩ := pages document found here
        obtain ⟨b', row, live, onPage, rfl, among⟩ := attends.pushes document d e l other slot was
          kept (fewer.listed e l listed) push
        by_cases same : other = binding
        · subst same
          rw [present] at row
          cases row
          exact absurd among (left onPage.symm kept l listed)
        · exact ⟨b', by rw [bindings, Table.get?_update_of_ne _ _ same, row], live, onPage, rfl, among⟩
      · intro other found page' id here at_ among
        obtain ⟨old, was, same, ids⟩ := rows other found here
        rw [same] at at_
        obtain ⟨d, wasPage, fewer, -⟩ := pages old.document page' at_
        obtain ⟨below, own⟩ := attends.holds other old d id was wasPage (ids id among)
        rw [fewer.next]
        exact ⟨below, fun e l listed => own e l (fewer.listed e l listed)⟩

/-- Whatever is done, as long as what is named is there. -/
theorem step {attaching : Prop} (attends : v.Attends) (step : v.Step True attaching w) :
    w.Attends := by
  cases step with
  | note => exact attends.of_same rfl rfl fun _ => id
  | hold handle named =>
      refine attends.of_same rfl rfl fun document keeps => ?_
      rcases keepsDocument_iff.mp keeps with held | viewed
      · rcases List.mem_cons.mp held with here | before
        · subst here
          exact named trivial
        · exact keepsDocument_iff.mpr (Or.inl before)
      · exact keepsDocument_iff.mpr (Or.inr viewed)
  | release handle =>
      obtain ⟨bindings, documents, views, held⟩ := tables_release handle v
      refine attends.of_same documents bindings fun document keeps => ?_
      rw [keepsDocument_iff, held, views] at keeps
      exact keepsDocument_iff.mpr (keeps.imp_left List.mem_of_mem_erase)
  | openHub =>
      exact attends.of_same rfl rfl fun _ keeps => by
        simpa [keepsDocument, World.openHub, World.hold] using keeps
  | openModel =>
      exact attends.of_same rfl rfl fun _ keeps => by
        simpa [keepsDocument, World.openModel, World.hold] using keeps
  | openDocument => exact attends.openDocument
  | openView may view named =>
      refine attends.of_same rfl rfl fun document keeps => ?_
      rcases keepsDocument_iff.mp keeps with held | ⟨at_, found, present, same⟩
      · exact keepsDocument_iff.mpr (Or.inl held)
      · rcases Table.get?_insert_some.mp present with ⟨-, rfl⟩ | old
        · exact same ▸ named trivial
        · exact keepsDocument_iff.mpr (Or.inr ⟨at_, found, old, same⟩)
  | edit document f fewer =>
      exact attends.edited document (fun d numbered => numbered.fewer (fewer d))
        (fun d => (fewer d).goesOn) fun d e l _ _ listed _ => (fewer d).listed e l listed
  | listen document element callback =>
      unfold World.listen
      split
      · refine attends.edited document (fun d numbered => numbered.addListener _ _)
          (fun d => Document.goesOn_addListener _ _ d) fun d e l binding slot listed push => ?_
        rcases Document.mem_addListener listed with before | ⟨-, rfl⟩
        · exact before
        · cases push
      · exact attends
  | put => exact attends.of_same rfl rfl fun _ => id
  | install model p =>
      obtain ⟨bindings, documents, views, held⟩ := tables_install model p v
      exact attends.of_same documents bindings fun document keeps =>
        keepsDocument_of_same held views document ▸ keeps
  | unbindComputed model =>
      obtain ⟨bindings, documents, views, held⟩ := tables_unbindComputed model v
      exact attends.of_same documents bindings fun document keeps =>
        keepsDocument_of_same held views document ▸ keeps
  | start may document element declaration env named =>
      exact attends.start element declaration env (named trivial)
  | fit may present live editable name operator c =>
      exact attends.fit present live editable name operator c
  | amend binding f same =>
      refine attends.rewired rfl rfl rfl (fun other b present => ?_) fun other b was => ?_
      · obtain ⟨old, was, rfl⟩ := Table.get?_update_some present
        refine ⟨old, was, ?_⟩
        split
        · exact same old
        · rfl
      · by_cases here : other = binding
        · subst here
          exact ⟨f b, by rw [Table.get?_update_self, was]; rfl, same b⟩
        · exact ⟨b, by rw [Table.get?_update_of_ne _ _ here, was], rfl⟩
  | dispose binding => exact attends.dispose binding
  | rebind may view bindings =>
      refine attends.of_same rfl rfl fun document keeps => ?_
      rcases keepsDocument_iff.mp keeps with held | ⟨at_, found, present, same⟩
      · exact keepsDocument_iff.mpr (Or.inl held)
      · obtain ⟨old, was, rfl⟩ := Table.get?_update_some present
        refine keepsDocument_iff.mpr (Or.inr ⟨at_, old, was, ?_⟩)
        rw [← same]
        split <;> rfl
  | @close _ view row present =>
      obtain ⟨bindings, documents, views, held⟩ := tables_retire row.model
        ({ v with views := v.views.erase view } : World σ)
      refine attends.of_same documents bindings fun document keeps => ?_
      rw [keepsDocument_iff, close, held, views] at keeps
      rcases keeps with here | ⟨at_, found, there, same⟩
      · exact keepsDocument_iff.mpr (Or.inl here)
      · exact keepsDocument_iff.mpr (Or.inr ⟨at_, found, (Table.get?_of_get?_erase there).2, same⟩)

theorem steps {attaching : Prop} (attends : v.Attends) (steps : v.Steps True attaching w) :
    w.Attends :=
  steps.keep _ (fun step attends => attends.step step) attends

end Attends

/-! ## Documents go on -/

theorem documentsLast_listen (document : Ref .document) (element : Ref .element)
    (reaction : EditReaction) (w : World σ) :
    w.DocumentsLast (w.listen document element reaction).2 := by
  unfold listen
  split
  · exact documentsLast_edit document (Document.goesOn_addListener element reaction) rfl
  · exact .refl w

theorem documentsLast_fit (binding : Ref .binding) (b : Binding) (editable : Bool) (name : String)
    (operator : Operator) (c : Compilation) (w : World σ) :
    w.DocumentsLast (w.fit binding b editable name operator c) := by
  have applied : w.DocumentsLast (w.editDocument b.document
      (.amend b.element (operator.apply (c.compiled.value w.sight)))) :=
    documentsLast_edit b.document (fun d => (Document.fewer_amend _ _ d).goesOn) rfl
  have equipped : w.DocumentsLast (w.equip binding b editable name operator c) := by
    unfold equip
    dsimp only
    split
    · exact applied.trans (documentsLast_listen b.document b.element (.push binding b.slots.length) _)
    · exact applied
  exact equipped.trans (.of_eq (tables_enlistAll binding b.slots.length _ _).2.2.2)

/-- Documents only go on. -/
theorem documentsLast_step {careful attaching : Prop} (step : v.Step careful attaching w) :
    v.DocumentsLast w := by
  cases step with
  | release handle => exact .of_eq (tables_release handle v).2.1
  | openDocument =>
      intro document d present
      exact ⟨d, Table.get?_insert_some.mpr (Or.inr present), (Document.Fewer.refl d).goesOn⟩
  | edit document f fewer => exact documentsLast_edit document (fun d => (fewer d).goesOn) rfl
  | listen document element callback => exact documentsLast_listen _ _ _ v
  | install model p => exact .of_eq (tables_install model p v).2.1
  | unbindComputed model => exact .of_eq (tables_unbindComputed model v).2.1
  | fit _ _ _ editable name operator c => exact documentsLast_fit _ _ editable name operator c v
  | dispose binding =>
      rcases present : v.bindings.get? binding with _ | b
      · rw [dispose, present]
        exact .refl v
      · cases disposed : b.disposed with
        | true =>
            rw [dispose_of_disposed present disposed]
            exact .refl v
        | false =>
            have documents := (disposed_dispose present disposed).documents
            split at documents
            · exact documentsLast_edit b.document
                (fun d => (Document.fewer_removeListeners _ _ d).goesOn) documents
            · exact .of_eq documents
  | @close _ _ row _ => exact .of_eq (tables_retire row.model _).2.1
  | _ => exact .refl v

theorem Steps.documentsLast {careful attaching : Prop} (steps : v.Steps careful attaching w) :
    v.DocumentsLast w :=
  steps.keep v.DocumentsLast
    (fun step lasts => lasts.trans (documentsLast_step step)) (.refl v)

end World

end LiveBinding
