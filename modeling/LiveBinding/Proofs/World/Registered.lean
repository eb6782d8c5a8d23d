/-
# LiveBinding.Proofs.World.Registered -- subscriptions that stand

A subscription stands (`Registered`) as long as its listener is on its hub.  Each
listener belongs to somebody (`Reaction.owner`): to a client, a model whose
property it refreshes, or a binding whose slot it serves.  Owners end only what
is theirs, so what one of them ends leaves the subscriptions of the others
standing (`Registered.cancelAll`); for that no two listeners of a hub may share
an identifier (`Hub.Numbered`).
-/
import LiveBinding.World

namespace LiveBinding

set_option autoImplicit false

variable {σ : Type}

/-! ## Hubs -/

inductive Owner where
  | client
  | model (model : Ref .model)
  | binding (binding : Ref .binding)

def Reaction.owner : Reaction → Owner
  | .client _ => .client
  | .refresh model _ => .model model
  | .reapply binding _ => .binding binding
  | .push binding _ => .binding binding

/-- Clients and slots of bindings: whoever listens to a hub without a property that
holds the subscription. -/
def Reaction.IsFree : Reaction → Prop
  | .client _ => True
  | .reapply _ _ => True
  | _ => False

/-- Identifiers were given out in ascending order, and none twice. -/
structure Hub.Numbered (hub : Hub) : Prop where
  below : ∀ l ∈ hub.listeners, l.id < hub.nextId
  unique : ∀ l ∈ hub.listeners, ∀ l' ∈ hub.listeners, l.id = l'.id → l = l'

namespace Hub.Numbered

theorem empty : Hub.empty.Numbered :=
  ⟨fun _ none => absurd none List.not_mem_nil, fun _ none => absurd none List.not_mem_nil⟩

theorem subscribe {hub : Hub} (numbered : hub.Numbered) (event : String) (reaction : Reaction) :
    (hub.subscribe event reaction).Numbered where
  below := by
    intro l listed
    rcases List.mem_append.mp listed with old | new
    · exact Nat.lt_succ_of_lt (numbered.below l old)
    · rw [List.mem_singleton.mp new]
      exact Nat.lt_succ_self _
  unique := by
    have apart : ∀ l ∈ hub.listeners, l.id ≠ hub.nextId := fun l old same =>
      absurd (numbered.below l old) (by omega)
    intro l listed l' listed' same
    rcases List.mem_append.mp listed with old | new <;>
      rcases List.mem_append.mp listed' with old' | new'
    · exact numbered.unique l old l' old' same
    · rw [List.mem_singleton.mp new'] at same
      exact absurd same (apart l old)
    · rw [List.mem_singleton.mp new] at same
      exact absurd same.symm (apart l' old')
    · rw [List.mem_singleton.mp new, List.mem_singleton.mp new']

theorem filter {hub : Hub} (numbered : hub.Numbered) (keep : Listener → Bool) :
    ({ hub with listeners := hub.listeners.filter keep } : Hub).Numbered where
  below l listed := numbered.below l (List.mem_filter.mp listed).1
  unique l listed l' listed' :=
    numbered.unique l (List.mem_filter.mp listed).1 l' (List.mem_filter.mp listed').1

end Hub.Numbered

/-! ## Subscriptions on a table of hubs -/

abbrev Hubs := Table .hub Hub

def Numbered (hubs : Hubs) : Prop :=
  ∀ ref hub, hubs.get? ref = some hub → hub.Numbered

/-- The listener of the subscription is on its hub and reacts so. -/
def Registered (hubs : Hubs) (s : Subscription) (reaction : Reaction) : Prop :=
  ∃ hub, hubs.get? s.hub = some hub ∧ ⟨s.id, s.event, reaction⟩ ∈ hub.listeners

/-- What is registered on one table stands on the other, with the hubs there. -/
structure Continues (hubs hubs' : Hubs) : Prop where
  numbered : Numbered hubs → Numbered hubs'
  stands : ∀ {s reaction}, Registered hubs s reaction → Registered hubs' s reaction
  exists_ : ∀ {ref}, (hubs.get? ref).isSome → (hubs'.get? ref).isSome

namespace Continues

variable {hubs hubs' hubs'' : Hubs}

theorem refl (hubs : Hubs) : Continues hubs hubs := ⟨id, id, id⟩

theorem trans (first : Continues hubs hubs') (then_ : Continues hubs' hubs'') :
    Continues hubs hubs'' where
  numbered := then_.numbered ∘ first.numbered
  stands stood := then_.stands (first.stands stood)
  exists_ there := then_.exists_ (first.exists_ there)

theorem insert (hubs : Hubs) : Continues hubs (hubs.insert .empty) where
  numbered numbered ref hub present := by
    rcases Table.get?_insert_some.mp present with ⟨-, rfl⟩ | old
    · exact .empty
    · exact numbered ref hub old
  stands := by
    rintro s reaction ⟨hub, present, listed⟩
    exact ⟨hub, Table.get?_insert_some.mpr (Or.inr present), listed⟩
  exists_ there := by
    obtain ⟨hub, present⟩ := Option.isSome_iff_exists.mp there
    rw [Table.get?_insert_some.mpr (Or.inr present)]
    rfl

theorem subscribe (ref : Ref .hub) (event : String) (reaction : Reaction) (hubs : Hubs) :
    Continues hubs (hubs.update ref (Hub.subscribe event reaction)) where
  numbered numbered at_ hub present := by
    obtain ⟨old, was, rfl⟩ := Table.get?_update_some present
    split
    · exact (numbered at_ old was).subscribe event reaction
    · exact numbered at_ old was
  stands := by
    rintro s r ⟨hub, present, listed⟩
    by_cases same : s.hub = ref
    · subst same
      refine ⟨hub.subscribe event reaction, ?_, List.mem_append_left _ listed⟩
      rw [Table.get?_update_self, present]
      rfl
    · exact ⟨hub, by rw [Table.get?_update_of_ne _ _ same, present], listed⟩
  exists_ := Table.isSome_update

end Continues

theorem numbered_filter {hubs : Hubs} (numbered : Numbered hubs) (ref : Ref .hub)
    (keep : Listener → Bool) :
    Numbered (hubs.update ref fun hub => { hub with listeners := hub.listeners.filter keep }) := by
  intro at_ hub present
  obtain ⟨old, was, rfl⟩ := Table.get?_update_some present
  split
  · exact (numbered at_ old was).filter keep
  · exact numbered at_ old was

theorem Registered.filter {hubs : Hubs} {s : Subscription} {reaction : Reaction}
    (registered : Registered hubs s reaction) (ref : Ref .hub) (keep : Listener → Bool)
    (kept : s.hub = ref → keep ⟨s.id, s.event, reaction⟩ = true) :
    Registered (hubs.update ref fun hub => { hub with listeners := hub.listeners.filter keep })
      s reaction := by
  obtain ⟨hub, present, listed⟩ := registered
  by_cases same : s.hub = ref
  · subst same
    refine ⟨{ hub with listeners := hub.listeners.filter keep }, ?_,
      List.mem_filter.mpr ⟨listed, kept rfl⟩⟩
    rw [Table.get?_update_self, present]
    rfl
  · exact ⟨hub, by rw [Table.get?_update_of_ne _ _ same, present], listed⟩

/-- Taking listeners off a hub adds none. -/
theorem Registered.of_filter {hubs : Hubs} {s : Subscription} {reaction : Reaction} {ref : Ref .hub}
    {keep : Listener → Bool}
    (registered : Registered
      (hubs.update ref fun hub => { hub with listeners := hub.listeners.filter keep }) s reaction) :
    Registered hubs s reaction := by
  obtain ⟨hub, present, listed⟩ := registered
  obtain ⟨old, was, rfl⟩ := Table.get?_update_some present
  by_cases same : s.hub = ref
  · rw [if_pos same] at listed
    exact ⟨old, was, (List.mem_filter.mp listed).1⟩
  · rw [if_neg same] at listed
    exact ⟨old, was, listed⟩

/-- One subscription has one reaction. -/
theorem Registered.unique {hubs : Hubs} {s s' : Subscription} {reaction reaction' : Reaction}
    (numbered : Numbered hubs) (registered : Registered hubs s reaction)
    (registered' : Registered hubs s' reaction') (hub : s.hub = s'.hub) (id : s.id = s'.id) :
    reaction = reaction' := by
  obtain ⟨h, present, listed⟩ := registered
  obtain ⟨h', present', listed'⟩ := registered'
  rw [hub, present'] at present
  cases present
  have same := (numbered _ _ present').unique _ listed _ listed' id
  exact congrArg Listener.reaction same

/-! ## Where the subscriptions of slots come from -/

/-- What applies slots anew on the second table did so on the first. -/
def Traced (hubs hubs' : Hubs) : Prop :=
  ∀ s binding slot, Registered hubs' s (.reapply binding slot) →
    Registered hubs s (.reapply binding slot)

namespace Traced

variable {hubs hubs' : Hubs}

theorem refl (hubs : Hubs) : Traced hubs hubs := fun _ _ _ => id

theorem insert (hubs : Hubs) : Traced hubs (hubs.insert .empty) := by
  rintro s binding slot ⟨hub, present, listed⟩
  rcases Table.get?_insert_some.mp present with ⟨-, rfl⟩ | old
  · cases listed
  · exact ⟨hub, old, listed⟩

theorem filter (ref : Ref .hub) (keep : Listener → Bool) (hubs : Hubs) :
    Traced hubs
      (hubs.update ref fun hub => { hub with listeners := hub.listeners.filter keep }) :=
  fun _ _ _ => Registered.of_filter

end Traced

/-- On the second table nobody is called who was not on the first, but clients and
slots. -/
def Heard (hubs hubs' : Hubs) : Prop :=
  ∀ s reaction, Registered hubs' s reaction → Registered hubs s reaction ∨ reaction.IsFree

namespace Heard

variable {hubs hubs' hubs'' : Hubs}

theorem refl (hubs : Hubs) : Heard hubs hubs := fun _ _ => Or.inl

theorem trans (first : Heard hubs hubs') (then_ : Heard hubs' hubs'') : Heard hubs hubs'' :=
  fun s reaction registered => (then_ s reaction registered).elim (first s reaction) Or.inr

theorem insert (hubs : Hubs) : Heard hubs (hubs.insert .empty) := by
  rintro s reaction ⟨hub, present, listed⟩
  rcases Table.get?_insert_some.mp present with ⟨-, rfl⟩ | old
  · cases listed
  · exact Or.inl ⟨hub, old, listed⟩

theorem filter (ref : Ref .hub) (keep : Listener → Bool) (hubs : Hubs) :
    Heard hubs
      (hubs.update ref fun hub => { hub with listeners := hub.listeners.filter keep }) :=
  fun _ _ registered => Or.inl registered.of_filter

end Heard

namespace World

variable {w : World σ} {s : Subscription} {reaction : Reaction}

/-! ## Subscribing -/

/-- What is registered after subscribing was before, or is new. -/
theorem registered_or_new {hub : Ref .hub} {event : String} {reaction r : Reaction}
    (registered : Registered (w.subscribe hub event reaction).2.hubs s r) :
    Registered w.hubs s r ∨ (w.subscribe hub event reaction).1 = some s ∧ r = reaction := by
  unfold subscribe at registered ⊢
  split at registered
  · rename_i h there
    obtain ⟨hub', present, listed⟩ := registered
    obtain ⟨old, was, rfl⟩ := Table.get?_update_some present
    by_cases same : s.hub = hub
    · rw [if_pos same] at listed
      subst same
      rw [there] at was
      cases was
      rcases List.mem_append.mp listed with before | new
      · exact Or.inl ⟨h, there, before⟩
      · have mine := List.mem_singleton.mp new
        cases s
        cases mine
        exact Or.inr ⟨rfl, rfl⟩
    · rw [if_neg same] at listed
      exact Or.inl ⟨old, was, listed⟩
  · exact Or.inl registered

theorem heard_subscribe (hub : Ref .hub) (event : String) (reaction : Reaction)
    (free : reaction.IsFree) (w : World σ) :
    Heard w.hubs (w.subscribe hub event reaction).2.hubs := by
  intro s r registered
  rcases registered_or_new registered with before | ⟨-, rfl⟩
  · exact Or.inl before
  · exact Or.inr free

theorem traced_subscribe (hub : Ref .hub) (event : String) {reaction : Reaction}
    (other : ∀ binding slot, reaction ≠ .reapply binding slot) (w : World σ) :
    Traced w.hubs (w.subscribe hub event reaction).2.hubs := by
  intro s binding slot registered
  rcases registered_or_new registered with before | ⟨-, same⟩
  · exact before
  · exact absurd same.symm (other binding slot)

theorem continues_subscribe (hub : Ref .hub) (event : String) (reaction : Reaction) (w : World σ) :
    Continues w.hubs (w.subscribe hub event reaction).2.hubs := by
  unfold subscribe
  split
  · exact .subscribe hub event reaction w.hubs
  · exact .refl _

theorem registered_subscribe {hub : Ref .hub} {event : String}
    (subscribed : (w.subscribe hub event reaction).1 = some s) :
    Registered (w.subscribe hub event reaction).2.hubs s reaction ∧ s.hub = hub ∧
      s.event = event := by
  unfold subscribe at subscribed ⊢
  split at subscribed
  · rename_i h present
    cases subscribed
    refine ⟨⟨h.subscribe event reaction, ?_, List.mem_append_right _ (List.mem_singleton.mpr rfl)⟩,
      rfl, rfl⟩
    show (w.hubs.update hub _).get? hub = _
    rw [Table.get?_update_self, present]
    rfl
  · cases subscribed

theorem subscribe_isSome {hub : Ref .hub} (event : String) (reaction : Reaction)
    (there : (w.hubs.get? hub).isSome) : ((w.subscribe hub event reaction).1).isSome := by
  unfold subscribe
  split
  · rfl
  · rename_i gone
    rw [gone] at there
    cases there

/-! ## Ending subscriptions -/

/-- Whatever the subscription ends, the listener that reacts so is not it. -/
def Spares (hubs : Hubs) (s : Subscription) (reaction : Reaction) : Prop :=
  ∀ hub, hubs.get? s.hub = some hub → ∀ l ∈ hub.listeners, l.id = s.id → l.reaction ≠ reaction

theorem spares_of_registered {s' : Subscription} {reaction' : Reaction} (numbered : Numbered w.hubs)
    (registered : Registered w.hubs s' reaction') (other : reaction' ≠ reaction) :
    Spares w.hubs s' reaction := by
  intro hub present l listed id same
  have here : Registered w.hubs ⟨s'.hub, l.id, l.event⟩ l.reaction := ⟨hub, present, listed⟩
  have one := here.unique numbered registered rfl id
  exact other (one.symm.trans same)

theorem numbered_cancelAll (ss : List Subscription) (numbered : Numbered w.hubs) :
    Numbered (w.cancelAll ss).hubs := by
  induction ss generalizing w with
  | nil => exact numbered
  | cons s rest ih => exact ih (w := w.cancel s) (numbered_filter numbered s.hub _)

theorem isSome_cancelAll {ref : Ref .hub} (ss : List Subscription)
    (there : (w.hubs.get? ref).isSome) : ((w.cancelAll ss).hubs.get? ref).isSome := by
  induction ss generalizing w with
  | nil => exact there
  | cons s rest ih => exact ih (w := w.cancel s) (Table.isSome_update there)

theorem registered_of_cancelAll {ss : List Subscription}
    (registered : Registered (w.cancelAll ss).hubs s reaction) : Registered w.hubs s reaction := by
  induction ss generalizing w with
  | nil => exact registered
  | cons s' rest ih => exact (ih (w := w.cancel s') registered).of_filter

theorem heard_cancelAll (ss : List Subscription) (w : World σ) :
    Heard w.hubs (w.cancelAll ss).hubs :=
  fun _ _ registered => Or.inl (registered_of_cancelAll registered)

theorem traced_cancelAll (ss : List Subscription) (w : World σ) :
    Traced w.hubs (w.cancelAll ss).hubs :=
  fun _ _ _ => registered_of_cancelAll

/-- What was ended is not registered any more. -/
theorem not_mem_of_registered_cancelAll {ss : List Subscription}
    (registered : Registered (w.cancelAll ss).hubs s reaction) : s ∉ ss := by
  induction ss generalizing w with
  | nil => exact List.not_mem_nil
  | cons s' rest ih =>
      intro among
      rcases List.mem_cons.mp among with rfl | later
      · obtain ⟨hub, present, listed⟩ := registered_of_cancelAll (w := w.cancel s) registered
        obtain ⟨old, -, rfl⟩ := Table.get?_update_some present
        rw [if_pos rfl] at listed
        simpa using (List.mem_filter.mp listed).2
      · exact ih (w := w.cancel s') registered later

theorem Spares.cancelAll {ss : List Subscription} (spares : ∀ s' ∈ ss, Spares w.hubs s' reaction)
    (registered : Registered w.hubs s reaction) : Registered (w.cancelAll ss).hubs s reaction := by
  induction ss generalizing w with
  | nil => exact registered
  | cons s' rest ih =>
      refine ih (w := w.cancel s') ?_ ?_
      · intro later listed hub present l on id
        obtain ⟨old, was, rfl⟩ := Table.get?_update_some present
        refine spares later (List.mem_cons_of_mem _ listed) old was l ?_ id
        split at on
        · exact (List.mem_filter.mp on).1
        · exact on
      · refine registered.filter s'.hub _ fun same => ?_
        obtain ⟨hub, present, on⟩ := registered
        rw [same] at present
        have kept : s.id ≠ s'.id := fun id =>
          spares s' List.mem_cons_self hub present _ on id rfl
        simpa using kept

end World

/-- What one owner ends leaves the subscriptions of the others standing. -/
theorem Registered.cancelAll {w : World σ} {s : Subscription} {reaction : Reaction}
    {ss : List Subscription} {owner : Owner} (numbered : Numbered w.hubs)
    (owned : ∀ s' ∈ ss, ∃ r, r.owner = owner ∧ Registered w.hubs s' r)
    (other : reaction.owner ≠ owner) (registered : Registered w.hubs s reaction) :
    Registered (w.cancelAll ss).hubs s reaction := by
  refine World.Spares.cancelAll (fun s' listed => ?_) registered
  obtain ⟨r, owns, stands⟩ := owned s' listed
  refine World.spares_of_registered numbered stands ?_
  rintro rfl
  exact other owns

/-- A client ends no subscription but a client's. -/
theorem Registered.withdraw {w : World σ} {s s' : Subscription} {reaction : Reaction}
    (other : reaction.owner ≠ .client)
    (registered : Registered w.hubs s reaction) : Registered (w.withdraw s').hubs s reaction := by
  refine registered.filter s'.hub _ fun _ => ?_
  have mine : reaction.isClient = false := by
    cases reaction with
    | client callback => exact absurd rfl other
    | _ => rfl
  simp [mine]

end LiveBinding
