/-
# LiveBinding.Proofs.Rejection -- what definitions that are rejected leave behind

Binding computed properties can fail at four places.  At the first three a getter is
missing, a getter fails, or the properties depend on each other in a circle; there all
that was bound is released again, and every subscription made on the way is ended
(`bindComputed_releases`).  At the last the properties are bound for good and their
first values are being announced; a listener that fails then leaves them bound
(`announced_stays_bound`).

While properties are being bound, whatever is registered that was not before belongs
to one of the properties that the model has by then (`World.Adds`).
-/
import LiveBinding.Proofs.Follower.Warranted
import LiveBinding.Proofs.Run.Settle

namespace LiveBinding

set_option autoImplicit false

variable {σ : Type}

namespace World

/-- The model is there, and what is registered but was not before is held by one of its
properties. -/
def Adds (before : Hubs) (model : Ref .model) (w : World σ) : Prop :=
  ∃ m, w.models.get? model = some m ∧ ∀ s reaction, Registered w.hubs s reaction →
    Registered before s reaction ∨ ∃ p ∈ m.properties, s ∈ p.subscriptions

/-- The model, if it is there, has no properties, and nothing is registered that was
not before. -/
def Clears (before : Hubs) (model : Ref .model) (w : World σ) : Prop :=
  (∀ m, w.models.get? model = some m → m.properties = []) ∧
    ∀ s reaction, Registered w.hubs s reaction → Registered before s reaction

variable {w : World σ} {before : Hubs} {model : Ref .model}

/-- Releasing the properties leaves nothing of what was added on the way. -/
theorem Adds.clears (adds : w.Adds before model) : (w.unbindComputed model).Clears before model := by
  obtain ⟨m, present, added⟩ := adds
  refine ⟨fun _ => properties_unbindComputed, fun s reaction registered => ?_⟩
  obtain ⟨stood, ended⟩ := registered_of_unbindComputed registered
  rcases added s reaction stood with old | ⟨p, listed, mine⟩
  · exact old
  · exact absurd mine (ended m present p listed)

/-- Letting go of the model brings nothing back. -/
theorem Clears.release (clears : w.Clears before model) :
    (w.release (.model model)).Clears before model := by
  show (retire model { w with held := w.held.erase (.model model) }).Clears before model
  rw [retire]
  split
  · exact clears
  · split
    · rename_i m present
      refine ⟨fun m' present' => ?_, fun s reaction registered => ?_⟩
      · simp at present'
      · have stood := registered_of_cancelAll registered
        exact clears.2 s reaction stood
    · exact clears

/-- A model whose properties were released is there, and nothing was added since. -/
theorem adds_unbindComputed {m : Model σ} (present : w.models.get? model = some m) :
    (w.unbindComputed model).Adds (w.unbindComputed model).hubs model := by
  obtain ⟨m', present', -⟩ := present_unbindComputed present
  exact ⟨m', present', fun _ _ => Or.inl⟩

end World

namespace Run

variable {s t : State σ} {model : Ref .model} {name : String}

/-! ## Binding one property after another -/

theorem buildAll_adds {before : Hubs} {definitions : List (String × Definition σ)}
    {ended : Except Halt Unit} (adds : s.world.Adds before model)
    (built : (buildAll model definitions).result s = (ended, t)) : t.world.Adds before model := by
  induction definitions generalizing s with
  | nil =>
      cases built
      exact adds
  | cons entry rest ih =>
      obtain ⟨m, present, added⟩ := adds
      rcases first : (buildProperty model entry.1 entry.2).result s with ⟨halt | p, r⟩
      · obtain ⟨models, holds⟩ := buildProperty_adds first
        rw [buildAll, result_bind_error first] at built
        cases built
        refine ⟨m, by rw [models, present], fun sub reaction registered => ?_⟩
        rcases holds sub reaction registered with old | ⟨_, none, -⟩
        · exact added sub reaction old
        · cases none
      · obtain ⟨models, holds⟩ := buildProperty_adds first
        rw [buildAll, result_bind_ok first, result_alter_bind] at built
        refine ih ⟨{ m with properties := m.properties ++ [p] }, ?_, ?_⟩ built
        · rw [State.alter_world, Table.get?_update_self, models, present]
          rfl
        · intro sub reaction registered
          rcases holds sub reaction registered with old | ⟨_, same, mine⟩
          · refine (added sub reaction old).imp_right ?_
            rintro ⟨q, listed, mine⟩
            exact ⟨q, List.mem_append_left _ listed, mine⟩
          · cases same
            exact Or.inr ⟨p, List.mem_append_right _ (List.mem_singleton.mpr rfl), mine.held⟩

/-! ## The exits -/

/-- Where a definition cannot be bound, all are released. -/
theorem buildAllOrNone_clears {before : Hubs} {definitions : List (String × Definition σ)}
    {error : Error} (adds : s.world.Adds before model)
    (failed : (buildAllOrNone model definitions).result s = (.error (.failed error), t)) :
    t.world.Clears before model := by
  rcases bind_error failed with never | ⟨answer, r, answered, failed⟩
  · exact absurd never attempt_ne_failed
  · rcases attempt_ok answered with ⟨_, rfl, -⟩ | ⟨error, rfl, built⟩
    · cases failed
    · rw [result_alter_bind] at failed
      cases failed
      exact (buildAll_adds adds built).clears

theorem buildAllOrNone_adds {before : Hubs} {definitions : List (String × Definition σ)}
    (adds : s.world.Adds before model)
    (built : (buildAllOrNone model definitions).result s = (.ok (), t)) :
    t.world.Adds before model := by
  obtain ⟨answer, r, answered, ended⟩ := bind_ok built
  rcases attempt_ok answered with ⟨_, rfl, built⟩ | ⟨error, rfl, -⟩
  · cases ended
    exact buildAll_adds adds built
  · rw [result_alter_bind] at ended
    cases ended

/-- Where properties depend on each other in a circle, all are released. -/
theorem refuseCycle_clears {before : Hubs} {error : Error} (adds : s.world.Adds before model)
    (failed : (refuseCycle model).result s = (.error (.failed error), t)) :
    t.world.Clears before model := by
  rw [refuseCycle, result_world_bind] at failed
  split at failed
  · cases failed
  · rename_i cycle _
    rw [result_alter_bind, result_alter_bind] at failed
    cases failed
    have noted : (s.world.report (.cycleDetected cycle)).Adds before model := adds
    exact noted.clears

/-- A dispatch that comes to an end is noted. -/
theorem dispatch_saw (depth : Nat) (signal : Signal) (s : State σ) :
    Follows (fun s t => s.world.Saw Happening.IsDispatched t.world) (dispatch depth signal) s := by
  cases depth with
  | zero =>
      intro ended t worked deep
      cases worked
      exact absurd rfl deep
  | succ depth =>
      intro ended t worked deep
      rw [result_dispatch] at worked
      have bears : (Follower.invariant (World.Sound (σ := σ))).Bears (listeners s.world signal) :=
        fun _ _ _ _ _ => trivial
      have calls := Follower.takes_deliver Follower.soundness.lawful
        (Follower.soundness.attentive depth) (Follower.goes depth) signal s.world.journal.length
        (s := s.alter (.happen (.dispatched signal))) bears
      obtain ⟨before, -, noted⟩ := calls ended t worked deep
      have first := World.before_happen (.dispatched signal) s.world
      refine ⟨first.trans before, ?_, fun error failing => ?_⟩
      · exact (World.saw_trans first before).mpr (Or.inl (World.saw_happen.mpr trivial))
      · exact (World.saw_trans first before).mpr (Or.inr (noted error failing))

/-- Announcing changes fails only once something was dispatched. -/
theorem announce_saw {depth : Nat} {hub : Ref .hub} {changes : List (String × Json)} {error : Error}
    (failed : (announce (dispatch depth) hub changes).result s = (.error (.failed error), t)) :
    s.world.Before t.world ∧ s.world.Saw Happening.IsDispatched t.world := by
  have onward : Onward (fun _ _ : State σ => True) := ⟨fun _ => trivial, fun _ _ _ _ => trivial⟩
  have goes := fun signal (s : State σ) => (Follower.goes depth).dispatched signal s
  have each : ∀ (changes : List (String × Json)) (s : State σ), Follows (fun _ _ => True)
      (changes.forM fun change => dispatch depth (.event hub ⟨changeOf change.1, change.2⟩)) s := by
    intro changes
    induction changes with
    | nil => exact fun s => onward.follows_pure ()
    | cons change rest ih => exact fun s => onward.bind (goes _ s) fun _ t _ => ih t
  cases changes with
  | nil => cases failed
  | cons change rest =>
      have join : ∀ t u : State σ, s.world.Before t.world → t.world.Before u.world →
          s.world.Saw Happening.IsDispatched t.world → True →
          s.world.Saw Happening.IsDispatched u.world :=
        fun _ _ before beforeThen saw _ => (World.saw_trans before beforeThen).mpr (Or.inl saw)
      have first : Follows (fun s t => s.world.Saw Happening.IsDispatched t.world)
          ((change :: rest).forM fun change =>
            dispatch depth (.event hub ⟨changeOf change.1, change.2⟩)) s :=
        (dispatch_saw depth _ s).bind_of (fun _ t _ => each rest t) (fun _ _ _ _ => id) join
      have all : Follows (fun s t => s.world.Saw Happening.IsDispatched t.world)
          (announce (dispatch depth) hub (change :: rest)) s :=
        first.bind_of (fun _ t _ => goes _ t) (fun _ _ _ _ => id) join
      obtain ⟨before, saw, -⟩ := all _ t failed (by simp)
      exact ⟨before, saw⟩

/-- Definitions that are rejected before anything is announced leave the model without
computed properties.  Nothing is registered but what was registered before, and not for
the properties that the model had before. -/
theorem bindComputed_releases {depth : Nat} {definitions : List (String × Definition σ)}
    {error : Error} (present : (s.world.models.get? model).isSome)
    (failed : (bindComputed (dispatch depth) model definitions).result s =
      (.error (.failed error), t))
    (silent : ¬ s.world.Saw Happening.IsDispatched t.world) :
    (∀ m, t.world.models.get? model = some m → m.properties = []) ∧
      ∀ sub reaction, Registered t.world.hubs sub reaction →
        Registered s.world.hubs sub reaction ∧
          ∀ m, s.world.models.get? model = some m → ∀ p ∈ m.properties, sub ∉ p.subscriptions := by
  obtain ⟨m, present⟩ := Option.isSome_iff_exists.mp present
  have clears : t.world.Clears
      ((s.world.hold (.model model)).unbindComputed model).hubs model := by
    rw [bindComputed, result_keeping, result_lastly, Prod.mk.injEq] at failed
    obtain ⟨failed, rfl⟩ := failed
    generalize worked : Run.result _ (s.alter (.hold (.model model))) = ended at failed silent ⊢
    obtain ⟨halt, u⟩ := ended
    cases failed
    refine World.Clears.release ?_
    rw [result_alter_bind] at worked
    have started : ((s.alter (.hold (.model model))).alter (.unbindComputed model)).world.Adds
        ((s.world.hold (.model model)).unbindComputed model).hubs model :=
      World.adds_unbindComputed present
    rcases bind_error worked with failed | ⟨_, r, built, checking⟩
    · exact buildAllOrNone_clears started failed
    have added := buildAllOrNone_adds started built
    rcases bind_error checking with failed | ⟨_, r', checked, announcing⟩
    · exact refuseCycle_clears added failed
    -- what is left to fail is the announcement, and it is not silent
    obtain rfl := refuseCycle_ok checked
    have before : s.world.Before r'.world :=
      (World.before_unbindComputed model (s.world.hold (.model model))).trans
        (buildAllOrNone_builds definitions _ _ built (by simp)).1
    rw [result_world_bind] at announcing
    split at announcing
    · cases announcing
    · rename_i m' present'
      rw [writeStore, result_world_bind, present', result_alter_bind] at announcing
      obtain ⟨beforeThen, saw⟩ := announce_saw announcing
      refine absurd ?_ silent
      show World.Saw _ s.world (World.release (.model model) u.world)
      rw [World.Saw, World.journal_release]
      exact (World.saw_trans before beforeThen).mpr (Or.inr saw)
  refine ⟨clears.1, fun sub reaction registered => ?_⟩
  have stood := World.registered_of_unbindComputed (clears.2 sub reaction registered)
  exact stood

end Run

/-! ## Runs -/

namespace Sample

def copy : Getter Unit :=
  .read none true "x" .done

/-- A model with a computed property, and a listener that cannot stand a `p`. -/
def picky : Program Unit :=
  .call (.openModel [("x", .text "1")]) fun (model : Ref .model) =>
    .call (.bindComputed model [("old", .ofGetter copy)]) fun _ =>
      .subscribe ⟨0⟩ (changeOf "p") (fun _ => .fail (.noSetter "p")) fun _ => .done

def picked : State Unit :=
  ((Run.run 3 picky).result ⟨.empty, [], ()⟩).2

def halfDefined : List (String × Definition Unit) :=
  [("q", .ofGetter copy), ("p", .empty)]

def wellDefined : List (String × Definition Unit) :=
  [("q", .ofGetter copy), ("p", { Definition.ofGetter copy with isVirtual := false })]

def audience (s : State Unit) : Option (List Reaction) :=
  (s.world.hubs.get? ⟨0⟩).map fun hub => hub.listeners.map (·.reaction)

def computed (s : State Unit) : Option (List String) :=
  (s.world.models.get? ⟨0⟩).map fun m => m.properties.map (·.name)

end Sample

open Sample in
/-- A missing getter: the property before it is released, and so is the one of before. -/
theorem bindComputed_releases_picky :
    computed picked = some ["old"] ∧
      ∀ m, ((Run.bindComputed (Run.dispatch 3) ⟨0⟩ halfDefined).result picked).2.world.models.get? ⟨0⟩ =
        some m → m.properties = [] := by
  have failed : (Run.bindComputed (Run.dispatch 3) ⟨0⟩ halfDefined).result picked =
      (.error (.failed (.noGetter "p")),
        ((Run.bindComputed (Run.dispatch 3) ⟨0⟩ halfDefined).result picked).2) := rfl
  refine ⟨by decide +kernel, (Run.bindComputed_releases ?_ failed ?_).1⟩
  · decide +kernel
  · decide +kernel

open Sample in
/-- A listener that fails while the first values are announced: the definitions are
rejected, yet the properties stay, and listen. -/
theorem announced_stays_bound :
    ((Run.bindComputed (Run.dispatch 3) ⟨0⟩ wellDefined).result picked).1 =
        .error (.failed (.noSetter "p")) ∧
      computed ((Run.bindComputed (Run.dispatch 3) ⟨0⟩ wellDefined).result picked).2 =
        some ["q", "p"] ∧
      audience picked = some [.refresh ⟨0⟩ "old", .client 0] ∧
      audience ((Run.bindComputed (Run.dispatch 3) ⟨0⟩ wellDefined).result picked).2 =
        some [.client 0, .refresh ⟨0⟩ "q", .refresh ⟨0⟩ "p"] := by
  refine ⟨rfl, ?_, ?_, ?_⟩
  · decide +kernel
  · decide +kernel
  · decide +kernel

end LiveBinding
