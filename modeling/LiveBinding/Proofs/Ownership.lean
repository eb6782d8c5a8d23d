/-
# LiveBinding.Proofs.Ownership -- no listener leaks, and none is lost

Whatever a client does, as long as it names only what is there, each hub lists just those
that it owes an event: the subscriptions of clients that were not cancelled, the computed
properties of models that are there, and the slots of live bindings, each once for each of
its dependencies (`World.dues`).  Models that are there are kept by somebody, and a binding
that lives is in a view or was handed to the client (`World.Accounts`).

So nothing is left of a binding that was disposed: no hub lists it, nor does a document that
is kept, and it is never called again, whatever dispatches were going on when it was
disposed.
-/
import LiveBinding.Proofs.Run.Past
import LiveBinding.Proofs.Run.Wiring
import LiveBinding.Proofs.World.Attendance

namespace LiveBinding

set_option autoImplicit false

variable {σ : Type}

/-! ## What clients have subscribed -/

/-- The subscriptions of clients after one more moment, each with its callback. -/
def Moment.record (ledger : List (Subscription × Nat)) (m : Moment σ) :
    List (Subscription × Nat) :=
  match m.point with
  | .subscribed subscription callback =>
      ledger ++ subscription.toList.map fun s => (s, callback)
  | .made (.cancel subscription) _ => ledger.filter fun entry => entry.1.key ≠ subscription.key
  | _ => ledger

/-- What clients have subscribed and not cancelled, when these moments are past. -/
def ledger (past : List (Moment σ)) : List (Subscription × Nat) :=
  past.foldl Moment.record []

theorem ledger_concat (past : List (Moment σ)) (m : Moment σ) :
    ledger (past ++ [m]) = m.record (ledger past) := by
  rw [ledger, List.foldl_append]
  rfl

/-- Only who subscribes or cancels changes what is recorded. -/
theorem record_of_mark {point : Point σ} (mark : point.IsMark) (s : State σ)
    (kept : List (Subscription × Nat)) : Moment.record kept ⟨point, s⟩ = kept := by
  cases point with
  | made call answer => cases call <;> first | rfl | exact absurd rfl mark
  | subscribed => exact mark.elim
  | _ => rfl

theorem record_made {call : Call σ} (other : ∀ subscription, call ≠ .cancel subscription)
    (answer : call.Answer) (s : State σ) (kept : List (Subscription × Nat)) :
    Moment.record kept ⟨.made call answer, s⟩ = kept := by
  cases call <;> first | rfl | exact absurd rfl (other _)

/-! ## What calls leave behind -/

def Moment.Hands (binding : Ref .binding) (m : Moment σ) : Prop :=
  ∃ document element env editable resolved,
    m.point = .made (.attach document element env editable resolved) (.ok binding)

def Call.Attaches : Call σ → Prop
  | .attach .. => True
  | .bindView _ => True
  | _ => False

/-- At the moment something had been attached, and the slots of the binding depend on what
their operators read then. -/
def Moment.Wires (b : Binding) (m : Moment σ) : Prop :=
  ∃ call answer, m.point = .made call answer ∧ call.Attaches ∧ b.IsCompiled m.state.world.sight

namespace Run

/-- A call that dispatches nothing leaves bindings what they are, and none loose but the one
that it hands over. -/
theorem tenure_perform {fire : Fire σ} {call : Call σ} {s t : State σ} {answer : call.Answer}
    (quiet : call.opening = none) (performed : (perform fire call).result s = (.ok answer, t)) :
    s.world.BindingsLast t.world ∧ ∀ binding, t.world.IsLoose binding →
      s.world.IsLoose binding ∨ Moment.Hands binding ⟨.made call answer, t⟩ := by
  have still : ∀ {w : World σ}, w.bindings = s.world.bindings → w.views = s.world.views →
      s.world.BindingsLast w ∧ ∀ binding, w.IsLoose binding →
        s.world.IsLoose binding ∨ Moment.Hands binding ⟨.made call answer, t⟩ :=
    fun bindings views => ⟨.of_eq bindings, fun _ loose => Or.inl (loose.of_eq bindings views)⟩
  cases call with
  | openHub => cases performed; exact still rfl rfl
  | openModel => cases performed; exact still rfl rfl
  | openDocument => cases performed; exact still rfl rfl
  | hold => cases performed; exact still rfl rfl
  | release handle =>
      cases performed
      exact still (World.tables_release handle _).1 (World.tables_release handle _).2.2.1
  | cancel => cases performed; exact still rfl rfl
  | unbindComputed model =>
      cases performed
      exact still (World.tables_unbindComputed model _).1 (World.tables_unbindComputed model _).2.2.1
  | edit => cases performed; exact still rfl rfl
  | mount => cases performed; exact still rfl rfl
  | operate => cases performed; exact still rfl rfl
  | attach document element env editable resolved =>
      rcases attempt_ok (show _ = (Except.ok answer, t) from performed) with
        ⟨binding, rfl, worked⟩ | ⟨error, rfl, worked⟩
      · refine ⟨(attach_lodges worked).1.bindingsLast (by simp), fun other loose => ?_⟩
        refine (loose_attach worked loose).imp_right fun handed => ?_
        cases handed
        exact ⟨document, element, env, editable, resolved, rfl⟩
      · refine ⟨(attach_lodges worked).1.bindingsLast (by simp), fun other loose => Or.inl ?_⟩
        exact (loose_attach worked loose).resolve_right nofun
  | dispose binding =>
      cases performed
      exact ⟨World.bindingsLast_dispose binding _, fun _ loose => Or.inl loose.of_dispose.1⟩
  | openView view =>
      cases performed
      refine ⟨.refl _, fun binding loose => Or.inl ⟨loose.lives, fun at_ v present => ?_⟩⟩
      exact loose.unowned at_ v (Table.get?_insert_some.mpr (Or.inr present))
  | bindView view =>
      have tenure := tenure_bindView view s
      rcases attempt_ok (show _ = (Except.ok answer, t) from performed) with ⟨_, -, worked⟩ | ⟨_, -, worked⟩
      all_goals
        rw [worked] at tenure
      all_goals exact ⟨tenure.1, fun binding loose => Or.inl (tenure.2 binding loose)⟩
  | unbindView view =>
      cases performed
      exact ⟨World.bindingsLast_unbindView view _, fun _ loose => Or.inl loose.of_unbindView⟩
  | removeView view =>
      cases performed
      exact ⟨World.bindingsLast_removeView view _, fun _ loose => Or.inl loose.of_removeView⟩
  | dropView view =>
      cases performed
      exact ⟨World.bindingsLast_dropView view _, fun _ loose => Or.inl loose.of_dropView⟩
  | report => cases performed; exact still rfl rfl
  | trigger => cases quiet
  | write => cases quiet
  | assign => cases quiet
  | bindComputed => cases quiet
  | announceEdit => cases quiet
  | typeInto => cases quiet

/-- New bindings depend on what their operators read, and can be compiled anew. -/
theorem fitted_perform {fire : Fire σ} {call : Call σ} {s t : State σ} {answer : call.Answer}
    (quiet : call.opening = none) (performed : (perform fire call).result s = (.ok answer, t))
    (announced : s.world.Announced) {binding : Ref .binding} {b : Binding}
    (present : t.world.bindings.get? binding = some b) (live : b.disposed = false) :
    (s.world.bindings.get? binding).isSome ∨ call.Attaches ∧ b.IsFitted t.world.sight := by
  have there : (t.world.bindings.get? binding).isSome := by
    rw [present]
    rfl
  cases call with
  | openHub => cases performed; exact Or.inl there
  | openModel => cases performed; exact Or.inl there
  | openDocument => cases performed; exact Or.inl there
  | hold => cases performed; exact Or.inl there
  | release handle =>
      cases performed
      exact Or.inl ((World.tables_release handle s.world).1 ▸ there)
  | cancel => cases performed; exact Or.inl there
  | unbindComputed model =>
      cases performed
      exact Or.inl ((World.tables_unbindComputed model s.world).1 ▸ there)
  | edit => cases performed; exact Or.inl there
  | mount => cases performed; exact Or.inl there
  | operate => cases performed; exact Or.inl there
  | attach document element env editable resolved =>
      rcases attempt_ok (show _ = (Except.ok answer, t) from performed) with
        ⟨mine, -, worked⟩ | ⟨error, -, worked⟩
      · by_cases same : binding = mine
        · subst same
          obtain ⟨found, row, fitted⟩ := attach_fitted announced worked
          cases row.symm.trans present
          exact Or.inr ⟨trivial, fitted⟩
        · obtain ⟨lodges, -, handed | ⟨⟨_, handed⟩, -⟩⟩ := attach_lodges worked
          · cases handed
            exact Or.inl (lodges.others binding (by simpa using same) ▸ there)
          · cases handed
      · obtain ⟨lodges, -, handed | ⟨-, disposed⟩⟩ := attach_lodges worked
        · cases handed
        · by_cases same : binding = s.world.bindings.fresh
          · subst same
            exact absurd (live.symm.trans (disposed b present)) Bool.false_ne_true
          · exact Or.inl (lodges.others binding (by simpa using same) ▸ there)
  | dispose other => cases performed; exact Or.inl (World.isSome_of_dispose there)
  | openView => cases performed; exact Or.inl there
  | bindView view =>
      have fitted := @fitted_bindView σ s binding b view announced
      rcases attempt_ok (show _ = (Except.ok answer, t) from performed) with ⟨_, -, worked⟩ | ⟨_, -, worked⟩
      all_goals
        rw [worked] at fitted
        exact (fitted present live).imp_right fun fitted => ⟨trivial, fitted⟩
  | unbindView view => cases performed; exact Or.inl (World.isSome_of_unbindView view there)
  | removeView view => cases performed; exact Or.inl (World.isSome_of_removeView there)
  | dropView view => cases performed; exact Or.inl (World.isSome_of_dropView there)
  | report => cases performed; exact Or.inl there
  | trigger => cases quiet
  | write => cases quiet
  | assign => cases quiet
  | bindComputed => cases quiet
  | announceEdit => cases quiet
  | typeInto => cases quiet

end Run

/-! ## What is kept along a run -/

/-- What a world has to account for, where these moments are past. -/
structure World.IsSettled (past : List (Moment σ)) (w : World σ) : Prop where
  balanced : w.Balanced (ledger past)
  attends : w.Attends
  models : w.ModelsKept
  loose : ∀ binding, w.IsLoose binding → ∃ m ∈ past, Moment.Hands binding m
  wired : ∀ binding b, w.bindings.get? binding = some b → b.disposed = false →
    ∃ m ∈ past, m.Wires b

theorem World.IsSettled.of_ledger {past past' : List (Moment σ)} {w : World σ}
    (settled : w.IsSettled past) (same : ledger past' = ledger past)
    (more : ∀ m ∈ past, m ∈ past') : w.IsSettled past' :=
  ⟨same ▸ settled.balanced, settled.attends, settled.models,
    fun binding loose =>
      have ⟨m, listed, hands⟩ := settled.loose binding loose
      ⟨m, more m listed, hands⟩,
    fun binding b present live =>
      have ⟨m, listed, wires⟩ := settled.wired binding b present live
      ⟨m, more m listed, wires⟩⟩

/-- A binding that is what it was is wired as it was. -/
theorem World.IsSettled.wired_of_lasts {past : List (Moment σ)} {v w : World σ}
    (settled : v.IsSettled past) (lasts : v.BindingsLast w) {binding : Ref .binding} {b : Binding}
    (old : (v.bindings.get? binding).isSome) (present : w.bindings.get? binding = some b)
    (live : b.disposed = false) : ∃ m ∈ past, m.Wires b := by
  obtain ⟨b', was, lived, same⟩ := lasts.lives old present live
  obtain ⟨m, listed, call, answer, point, attaches, compiled⟩ := settled.wired binding b' was lived
  exact ⟨m, listed, call, answer, point, attaches, compiled.of_wiring same⟩

namespace Trail

variable {start s : State σ} {past : List (Moment σ)} {awaited : Option (Call σ)}

theorem isSettled (begun : start.world.IsSettled []) (trail : Trail start past awaited s)
    (careful : ∀ m ∈ past, m.IsCareful) : s.world.IsSettled past := by
  -- hubs alone have changed, or the journal
  have aside : ∀ {past : List (Moment σ)} {m : Moment σ} {v : World σ}, v.IsSettled past →
      m.state.world.models = v.models → m.state.world.documents = v.documents →
      m.state.world.bindings = v.bindings → m.state.world.views = v.views →
      m.state.world.held = v.held → m.state.world.Balanced (ledger (past ++ [m])) →
      m.state.world.IsSettled (past ++ [m]) := by
    intro past m v settled models documents bindings views held balanced
    refine ⟨balanced, settled.attends.of_same documents bindings fun document keeps =>
        World.keepsDocument_of_same held views document ▸ keeps,
      settled.models.of_same models fun model keeps =>
        (World.keepsModel_of_same held views model).trans keeps, fun binding loose => ?_,
      fun binding b present live => ?_⟩
    · obtain ⟨m', listed, hands⟩ := settled.loose binding (loose.of_eq bindings views)
      exact ⟨m', List.mem_append_left _ listed, hands⟩
    · obtain ⟨m', listed, wires⟩ := settled.wired binding b (bindings ▸ present) live
      exact ⟨m', List.mem_append_left _ listed, wires⟩
  refine trail.invariant True (fun past s => s.world.IsSettled past) begun
    ?_ ?_ ?_ ?_ ?_ ?_ (fun _ => begun.balanced.announced) fun m listed _ => careful m listed
  · intro past s t steps settled
    exact ⟨settled.balanced.steps steps, settled.attends.steps steps, settled.models.steps steps,
      fun binding loose => settled.loose binding (steps.loose loose), fun binding b present live =>
        settled.wired_of_lasts steps.bindingsLast (steps.isSome (by rw [present]; rfl)) present live⟩
  · intro past s point mark settled
    refine settled.of_ledger ?_ fun m => List.mem_append_left _
    rw [ledger_concat, record_of_mark mark]
  · intro past s hub event callback settled
    obtain ⟨models, held⟩ := World.tables_subscribe hub event (.client s.callbacks.length) s.world
    obtain ⟨bindings, documents, views⟩ :=
      World.others_subscribe hub event (.client s.callbacks.length) s.world
    refine aside settled models documents bindings views held ?_
    rw [ledger_concat]
    exact settled.balanced.subscribe hub event s.callbacks.length
  · intro past s subscription settled
    refine aside settled rfl rfl rfl rfl rfl ?_
    rw [ledger_concat]
    exact settled.balanced.withdraw subscription
  · intro past s t call fire answer quiet other performed steps settled
    have lasts := (Run.tenure_perform quiet performed).1
    refine ⟨?_, settled.attends.steps steps, settled.models.steps steps, fun binding loose => ?_,
      fun binding b present live => ?_⟩
    · rw [ledger_concat, record_made other]
      exact settled.balanced.steps steps
    · rcases (Run.tenure_perform quiet performed).2 binding loose with before | hands
      · obtain ⟨m, listed, hands⟩ := settled.loose binding before
        exact ⟨m, List.mem_append_left _ listed, hands⟩
      · exact ⟨_, List.mem_append_right _ (List.mem_singleton.mpr rfl), hands⟩
    · rcases Run.fitted_perform quiet performed settled.balanced.announced present live with
        old | ⟨attaches, fitted⟩
      · obtain ⟨m, listed, wires⟩ := settled.wired_of_lasts lasts old present live
        exact ⟨m, List.mem_append_left _ listed, wires⟩
      · exact ⟨_, List.mem_append_right _ (List.mem_singleton.mpr rfl), call, answer, rfl, attaches,
          fitted.compiled⟩
  · intro past s first signal listener reaction dispatched listed registered settled
    refine aside settled rfl rfl rfl rfl rfl ?_
    rw [ledger_concat]
    exact ⟨settled.balanced.ordered, settled.balanced.announced, settled.balanced.listed,
      settled.balanced.models, settled.balanced.bindings⟩

end Trail

/-! ## What is left of bindings -/

namespace World

/-- Nothing is left of a binding: it holds nothing, nobody listens for it, on hubs or on a
document that is kept, and disposing it again changes nothing. -/
structure IsRidOf (w : World σ) (binding : Ref .binding) : Prop where
  bare : ∀ b, w.bindings.get? binding = some b → b.subscriptions = [] ∧ b.listeners = []
  hubs : ∀ hub h, w.hubs.get? hub = some h → ∀ l ∈ h.listeners,
    l.reaction.owner ≠ .binding binding
  documents : ∀ document d e, w.documents.get? document = some d →
    w.keepsDocument document = true → ∀ l ∈ d.listeners e,
      l.reaction.reaction.owner ≠ .binding binding
  again : w.dispose binding = w

variable {v w : World σ} {binding : Ref .binding} {b : Binding} {past : List (Moment σ)}

/-- Whoever listens to edits for a binding listens for one that lives. -/
theorem Attends.lives (attends : w.Attends) {document : Ref .document} {d : Document}
    {e : Ref .element} {l : EditListener} (present : w.documents.get? document = some d)
    (kept : w.keepsDocument document = true) (listed : l ∈ d.listeners e)
    (owns : l.reaction.reaction.owner = .binding binding) :
    ∃ b, w.bindings.get? binding = some b ∧ b.disposed = false := by
  obtain ⟨id, reaction⟩ := l
  cases reaction with
  | client callback => cases owns
  | push other slot =>
      cases owns
      obtain ⟨b, row, live, -⟩ := attends.pushes document d e _ _ slot present kept listed rfl
      exact ⟨b, row, live⟩

theorem IsSettled.isRidOf (settled : w.IsSettled past) (present : w.bindings.get? binding = some b)
    (disposed : b.disposed = true) : w.IsRidOf binding := by
  have dead : ¬ ∃ b, w.bindings.get? binding = some b ∧ b.disposed = false := by
    rintro ⟨found, there, live⟩
    rw [present] at there
    cases there
    exact Bool.false_ne_true (live.symm.trans disposed)
  refine ⟨fun found there => ?_, fun hub h there l listed owns => dead ?_,
    fun document d e there kept l listed owns => dead (settled.attends.lives there kept listed owns),
    dispose_of_disposed present disposed⟩
  · rw [present] at there
    cases there
    exact (settled.balanced.bindings binding b present).gone disposed
  · exact settled.balanced.lives (s := ⟨hub, l.id, l.event⟩) ⟨h, there, listed⟩ owns

/-- Who listened and still is registered listens as before. -/
theorem mem_listeners_of_lasts {signal : Signal} {listener : Nat} {reaction : Reaction}
    (hubs : Lasts v.hubs w.hubs) (documents : v.DocumentsLast w) (ordered : Ordered v.hubs)
    (numbered : ∀ document d, v.documents.get? document = some d → d.Numbered)
    (listed : (listener, reaction) ∈ Run.listeners v signal)
    (registered : Run.isRegistered w signal listener = true) :
    (listener, reaction) ∈ Run.listeners w signal := by
  cases signal with
  | event hub event =>
      rw [Follower.mem_listeners_event] at listed ⊢
      rw [Run.isRegistered] at registered
      split at registered
      · rename_i h' present
        exact hubs.registered ordered listed present registered
      · cases registered
  | edit document element =>
      rw [Run.listeners] at listed ⊢
      rw [Run.isRegistered] at registered
      rcases there : v.documents.get? document with _ | d
      · rw [there] at listed
        cases listed
      · obtain ⟨d', present, on⟩ := documents document d there
        rw [there] at listed
        rw [present] at registered ⊢
        obtain ⟨l, old, same⟩ := List.mem_map.mp listed
        obtain ⟨l', still, is⟩ := List.any_eq_true.mp registered
        cases same
        have id : l'.id = l.id := by simpa using is
        have one : l' = l := (numbered document d there).unique _ _ _ _
          (on.listed element l' still (id ▸ (numbered document d there).below element l old)) old id
        exact List.mem_map.mpr ⟨l, one ▸ still, rfl⟩

/-- What a binding held is registered no more, on hubs or on a document that is kept. -/
structure HasReleased (w : World σ) (b : Binding) : Prop where
  subscriptions : ∀ s ∈ b.subscriptions, ∀ h, w.hubs.get? s.hub = some h →
    h.isRegistered s.id = false
  listeners : ∀ id ∈ b.listeners, ∀ d, w.documents.get? b.document = some d →
    w.keepsDocument b.document = true → ∀ e, ∀ l ∈ d.listeners e, l.id ≠ id

theorem IsSettled.released (before : v.IsSettled past) (hubs : Lasts v.hubs w.hubs)
    (documents : v.DocumentsLast w) (held : v.bindings.get? binding = some b)
    (rid : w.IsRidOf binding) : w.HasReleased b := by
  refine ⟨fun s among h' present => ?_, fun id among d' present kept e l listed same => ?_⟩
  · obtain ⟨slot, h, there, listed⟩ := before.balanced.registered held among
    obtain ⟨found, here, -, known⟩ := hubs.known s.hub h there
    rw [present] at here
    cases here
    rw [Bool.eq_false_iff]
    intro registered
    obtain ⟨l, still, is⟩ := List.any_eq_true.mp registered
    have ordered := before.balanced.ordered s.hub h there
    have id : l.id = s.id := by simpa using is
    have below : s.id < h.nextId := ordered.below _ listed
    have one := ordered.numbered.unique _ (known l still (by omega)) _ listed id
    refine rid.hubs s.hub h' present l still ?_
    rw [one]
    rfl
  · obtain ⟨d, there⟩ := Option.isSome_iff_exists.mp (before.attends.there binding b held)
    obtain ⟨found, here, on⟩ := documents b.document d there
    rw [present] at here
    cases here
    obtain ⟨below, own⟩ := before.attends.holds binding b d id held there among
    obtain ⟨slot, pushes⟩ := own e l (on.listed e l listed (same ▸ below)) same
    refine rid.documents b.document d' e present kept l listed ?_
    rw [pushes]
    rfl

/-- How a world accounts for its listeners, where these moments are past. -/
structure Accounts (past : List (Moment σ)) (w : World σ) : Prop where
  /-- Each hub lists what is due, and each as often as it is due. -/
  hubs : ∀ hub h, w.hubs.get? hub = some h →
    (h.listeners.map fun l => (l.event, l.reaction)).Perm (w.dues (ledger past) hub)
  models : w.ModelsKept
  loose : ∀ binding, w.IsLoose binding → ∃ m ∈ past, Moment.Hands binding m
  wired : ∀ binding b, w.bindings.get? binding = some b → b.disposed = false →
    ∃ m ∈ past, m.Wires b
  disposed : ∀ binding b, w.bindings.get? binding = some b → b.disposed = true →
    w.IsRidOf binding
  /-- Bindings depend on what they did, and once disposed stay so. -/
  since : ∀ m ∈ past, ∀ binding b, m.state.world.bindings.get? binding = some b →
    ∃ b', w.bindings.get? binding = some b' ∧
      (b'.disposed = false → b.disposed = false ∧ b'.dependencies = b.dependencies) ∧
      (b'.disposed = true → w.HasReleased b)

end World

namespace Trail

variable {start s : State σ} {past : List (Moment σ)} {awaited : Option (Call σ)}

theorem documentsLast (bare : start.world.Announced) (trail : Trail start past awaited s) :
    start.world.DocumentsLast s.world ∧ ∀ m ∈ past, m.state.world.DocumentsLast s.world :=
  trail.relates False (fun steps => steps.documentsLast) (fun _ _ => .of_eq rfl)
    (fun hub event callback w => .of_eq (World.others_subscribe hub event (.client callback) w).2.1)
    (fun _ _ => .of_eq rfl) (fun _ _ _ steps => steps.documentsLast) (fun _ => bare)
    fun _ _ => False.elim

theorem bindingsLast (bare : start.world.Announced) (trail : Trail start past awaited s) :
    start.world.BindingsLast s.world ∧ ∀ m ∈ past, m.state.world.BindingsLast s.world :=
  trail.relates False (fun steps => steps.bindingsLast) (fun _ _ => .of_eq rfl)
    (fun hub event callback w => .of_eq (World.others_subscribe hub event (.client callback) w).1)
    (fun _ _ => .of_eq rfl) (fun quiet _ performed _ => (Run.tenure_perform quiet performed).1)
    (fun _ => bare) fun _ _ => False.elim

/-- Each moment was settled in its turn. -/
theorem isSettled_at (begun : start.world.IsSettled []) (trail : Trail start past awaited s)
    (careful : ∀ m ∈ past, m.IsCareful) {m : Moment σ} (listed : m ∈ past) :
    ∃ earlier, m.state.world.IsSettled earlier := by
  obtain ⟨before, after, split⟩ := List.append_of_mem listed
  exact ⟨before ++ [m], (trail.upTo split).isSettled begun fun m' among =>
    careful m' (mem_of_upTo split among)⟩

/-- Wherever a run gets, all listeners are accounted for. -/
theorem accounts (begun : start.world.IsSettled []) (trail : Trail start past awaited s)
    (careful : ∀ m ∈ past, m.IsCareful) : s.world.Accounts past := by
  have settled := trail.isSettled begun careful
  have disposed : ∀ binding b, s.world.bindings.get? binding = some b → b.disposed = true →
      s.world.IsRidOf binding := fun _ _ present disposed => settled.isRidOf present disposed
  refine ⟨fun hub h present => settled.balanced.dues present, settled.models, settled.loose,
    settled.wired, disposed, fun m listed binding b present => ?_⟩
  obtain ⟨b', there, same⟩ := (trail.bindingsLast begun.balanced.announced).2 m listed binding b present
  refine ⟨b', there, fun live => ?_, fun gone => ?_⟩
  · exact ⟨(congrArg Binding.disposed (same live)).symm.trans live,
      Binding.dependencies_of_wiring (same live)⟩
  · obtain ⟨_, before⟩ := trail.isSettled_at begun careful listed
    exact before.released (trail.lasts.2 m listed)
      ((trail.documentsLast begun.balanced.announced).2 m listed) present (disposed binding b' there gone)

/-- Whoever is called is listed then, and by a dispatch that is past. -/
theorem calls_listed (begun : start.world.IsSettled []) (trail : Trail start past awaited s)
    (careful : ∀ m ∈ past, m.IsCareful) {signal : Signal} {began listener : Nat}
    {reaction : Reaction} {m : Moment σ} (listed : m ∈ past)
    (called : m.point = .calling signal began listener reaction) :
    (∃ first, ⟨.dispatching signal, first⟩ ∈ past ∧ began = first.world.journal.length) ∧
      (listener, reaction) ∈ Run.listeners m.state.world signal := by
  obtain ⟨before, after, split⟩ := List.append_of_mem listed
  have here := trail.upTo split
  have among : ∀ {m' : Moment σ}, m' ∈ before ++ [m] → m' ∈ past := mem_of_upTo split
  obtain ⟨⟨first, dispatched, tag, hearing⟩, registered⟩ :=
    here.calls m (List.mem_append_right _ (List.mem_singleton.mpr rfl)) _ _ _ _ called
  obtain ⟨_, then_⟩ := trail.isSettled_at begun careful (among dispatched)
  exact ⟨⟨first, among dispatched, tag⟩, World.mem_listeners_of_lasts (here.lasts.2 _ dispatched)
    ((here.documentsLast begun.balanced.announced).2 _ dispatched) then_.balanced.ordered
    then_.attends.numbered hearing registered⟩

/-- Whoever is called for a binding is called for one that lives. -/
theorem calls_living (begun : start.world.IsSettled []) (trail : Trail start past awaited s)
    (careful : ∀ m ∈ past, m.IsCareful) {signal : Signal} {began listener : Nat}
    {reaction : Reaction} {binding : Ref .binding} {m : Moment σ} (listed : m ∈ past)
    (called : m.point = .calling signal began listener reaction)
    (kept : ∀ document element, signal = .edit document element →
      m.state.world.keepsDocument document = true)
    (owns : reaction.owner = .binding binding) :
    ∃ b, m.state.world.bindings.get? binding = some b ∧ b.disposed = false := by
  obtain ⟨-, still⟩ := trail.calls_listed begun careful listed called
  obtain ⟨_, now⟩ := trail.isSettled_at begun careful listed
  cases signal with
  | event hub event =>
      rw [Run.listeners] at still
      split at still
      · rename_i h present
        obtain ⟨l, listening, same⟩ := List.mem_map.mp still
        cases same
        exact now.balanced.lives (s := ⟨hub, l.id, l.event⟩)
          ⟨h, present, (List.mem_filter.mp listening).1⟩ owns
      · cases still
  | edit document element =>
      rw [Run.listeners] at still
      split at still
      · rename_i d present
        obtain ⟨l, listening, same⟩ := List.mem_map.mp still
        cases same
        exact now.attends.lives present (kept document element rfl) listening owns
      · cases still

end Trail

/-- Nothing is there yet, and nothing is owed. -/
theorem World.isSettled_empty : (World.empty : World σ).IsSettled [] := by
  have none : ∀ {kind : Kind} {α : Type} {r : Ref kind} {row : α} {goal : Prop},
      (Table.empty : Table kind α).get? r = some row → goal := fun present => by
    rw [Table.get?_empty] at present
    cases present
  have bare : ∀ document, (World.empty : World σ).keepsDocument document ≠ true := by
    intro document kept
    rcases World.keepsDocument_iff.mp kept with held | ⟨_, _, present, -⟩
    · cases held
    · exact none present
  refine ⟨⟨fun _ _ => none, fun _ _ => none, .refl _, fun _ _ => none, fun _ _ => none⟩,
    ⟨fun _ _ => none, fun document kept => absurd kept (bare document), fun _ _ => none,
      fun _ _ _ _ _ _ => none, fun _ _ _ _ => none⟩,
    fun _ _ => none, fun binding loose => ?_, fun _ _ => none⟩
  obtain ⟨_, present, -⟩ := loose.lives
  exact none present

/-- In every run in which clients name only what is there, all listeners are accounted for
whenever a call is made or has returned and whenever somebody is called, and so they are at
the end: each hub lists one listener for each subscription that was not cancelled, for each
dependency of a computed property on a model that somebody keeps, and for each dependency of
a slot of a live binding, which is what its operator read when the binding was attached.
Nothing is left of a binding that was disposed: it holds nothing, is listed nowhere and is
never called, and disposing it again changes nothing. -/
theorem listeners_owned (depth : Nat) (program : Program σ) (client : σ)
    (careful : ∀ m ∈ Run.moments depth program ⟨.empty, [], client⟩, m.IsCareful) :
    (∀ before m after, Run.moments depth program ⟨.empty, [], client⟩ = before ++ m :: after →
      m.state.world.Accounts (before ++ [m]) ∧
      ∀ signal began listener reaction binding,
        m.point = .calling signal began listener reaction →
        (∀ document element, signal = .edit document element →
          m.state.world.keepsDocument document = true) →
        reaction.owner = .binding binding →
          ∃ b, m.state.world.bindings.get? binding = some b ∧ b.disposed = false) ∧
    ((Run.run depth program).result ⟨.empty, [], client⟩).2.world.Accounts
      (Run.moments depth program ⟨.empty, [], client⟩) ∧
    ∀ (w : World σ) (binding : Ref .binding),
      (w.dispose binding).dispose binding = w.dispose binding ∧
      ∀ b, (w.dispose binding).bindings.get? binding = some b → b.disposed = true := by
  have begun : (State.world ⟨.empty, [], client⟩ : World σ).IsSettled [] := World.isSettled_empty
  have trail := Run.trail_moments depth program ⟨.empty, [], client⟩
  refine ⟨fun before m after split => ?_, trail.accounts begun careful, fun w binding =>
    ⟨World.dispose_dispose binding w, fun _ => World.isDisposed_dispose⟩⟩
  have listed : m ∈ Run.moments depth program ⟨.empty, [], client⟩ := by
    rw [split]
    exact List.mem_append_right _ List.mem_cons_self
  refine ⟨(trail.upTo split).accounts begun fun m' among => careful m' ?_,
    fun signal began listener reaction binding called kept owns =>
      trail.calls_living begun careful listed called kept owns⟩
  rw [split]
  exact List.mem_append.mpr ((List.mem_append.mp among).imp_right fun here =>
    List.mem_cons.mpr (Or.inl (List.mem_singleton.mp here)))

/-! ## Runs -/

namespace Sample

def field : View :=
  .ofDeclarations ⟨0⟩ Document.root ⟨0⟩ [("input", "value: name")]

def loud : List (String × Definition Unit) :=
  [("loud", ⟨some (.get "name"), none, true, []⟩)]

/-- A listener that comes before the field of a view releases the view, while the name is
written. -/
def guest : Program Unit :=
  .call .openDocument fun (document : Ref .document) =>
    .call (.edit document (.create "input")) fun _ =>
    .call (.edit document (.appendChild Document.root ⟨1⟩)) fun _ =>
    .call (.openModel [("name", .text "Ada")]) fun (model : Ref .model) =>
    .call (.openView field) fun (view : Ref .view) =>
    .subscribe ⟨0⟩ (changeOf "name") (fun _ => .call (.unbindView view) fun _ => .done) fun _ =>
    .call (.bindView view) fun _ =>
    .call (.bindComputed model loud) fun _ =>
    .call (.write model [("name", .text "Bob")]) fun _ => .done

def left : State Unit :=
  ((Run.run 4 guest).result ⟨.empty, [], ()⟩).2

end Sample

open Sample in
/-- When the guest has left, the field is listed no more: the listener is, and what shouts
the name. -/
theorem listeners_owned_guest :
    left.world.Accounts (Run.moments 4 guest ⟨.empty, [], ()⟩) ∧
      (left.world.bindings.get? ⟨0⟩).map (·.disposed) = some true ∧
      (left.world.hubs.get? ⟨0⟩).map (fun h => h.listeners.map fun l => (l.event, l.reaction)) =
        some [(changeOf "name", .client 0), (changeOf "name", .refresh ⟨0⟩ "loud")] := by
  have careful : ∀ m ∈ Run.moments 4 guest ⟨.empty, [], ()⟩, m.IsCareful := by decide +kernel
  refine ⟨?_, by decide +kernel, by decide +kernel⟩
  rw [left]
  exact (listeners_owned 4 guest () careful).2.1

end LiveBinding
