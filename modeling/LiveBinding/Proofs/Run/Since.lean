/-
# LiveBinding.Proofs.Run.Since -- what follows upon a moment

A moment yields a world: that in which its call has returned, or is ready for its dispatches,
and its own where none is made (`Moment.Yields`).  From there the run goes on to wherever it
gets next, so a relation that every step is of leads there from what the moment has yielded
(`Trail.since`).

So what abides since a moment is known where it held before (`Trail.abides_since`), and what
a call has ended stays ended (`Trail.gone_since`).
-/
import LiveBinding.Proofs.Run.Past
import LiveBinding.Proofs.Run.Rows
import LiveBinding.Proofs.World.Bound

namespace LiveBinding

set_option autoImplicit false

variable {σ : Type}

/-- What the world is right after the moment, with nothing dispatched yet. -/
inductive Moment.Yields : Moment σ → World σ → Prop where
  | still {m : Moment σ} (other : m.awaited = none) : m.Yields m.state.world
  | opened {s t : State σ} {call : Call σ} {opening : Run σ Errand} {ended : Except Halt Errand}
      (opens : call.opening = some opening) (worked : opening.result s = (ended, t)) :
      Moment.Yields ⟨.making call, s⟩ t.world
  | answered {s t : State σ} {fire : Fire σ} {call : Call σ} {answer : call.Answer}
      (quiet : call.opening = none) (performed : (Run.perform fire call).result s = (.ok answer, t)) :
      Moment.Yields ⟨.making call, s⟩ t.world

/-- Every step between two moments is of the relation. -/
structure World.Goes (R : World σ → World σ → Prop) : Prop where
  noted : ∀ happening w, R w (w.happen happening)
  listened : ∀ document element callback w, R w (w.listen document element (.client callback)).2
  subscribed : ∀ hub event callback w, R w (w.subscribe hub event (.client callback)).2
  reacted : ∀ {reaction : Reaction} {event opening}, reaction.opening event = some opening →
    ∀ s, Run.Leads R opening s
  closed : ∀ (closing : Closing) w, R w (closing.apply w)

namespace Trail

variable {start s : State σ} {past before mid : List (Moment σ)} {m : Moment σ}
  {awaited : Option (Call σ)}

/-- If every step is of the relation, and every moment since leads on by it, it leads on from
what the moment has yielded. -/
theorem since {R : World σ → World σ → Prop} [IsPreorder (World σ) R] (goes : World.Goes R)
    (trail : Trail start past awaited s) (split : past = before ++ m :: mid)
    (yields : ∀ m' ∈ mid, ∀ w, m'.Yields w → R m'.state.world w)
    (moved : awaited = none ∨ mid ≠ []) : ∃ w, m.Yields w ∧ R w s.world := by
  have shorter : ∀ {rest : List (Moment σ)} {a : Moment σ},
      (∀ m' ∈ rest ++ [a], ∀ w, m'.Yields w → R m'.state.world w) →
      ∀ m' ∈ rest, ∀ w, m'.Yields w → R m'.state.world w :=
    fun yields m' listed => yields m' (List.mem_append_left _ listed)
  -- at a point at which no call is made, a moment is the last, or was there already
  have marked : ∀ {past mid : List (Moment σ)} {point : Point σ} {s t : State σ},
      Moment.awaited ⟨point, t⟩ = none → past ++ [⟨point, t⟩] = before ++ m :: mid →
      (∀ rest, past = before ++ m :: rest → mid = rest ++ [⟨point, t⟩] →
        ∃ w, m.Yields w ∧ R w t.world) → ∃ w, m.Yields w ∧ R w t.world := by
    intro past mid point s t free split earlier
    rcases split_concat split with ⟨rfl, rfl, -⟩ | ⟨rest, was, longer⟩
    · exact ⟨_, .still free, refl _⟩
    · exact earlier rest was longer
  -- a call that was made is the moment's own, or one since
  have made : ∀ {past mid : List (Moment σ)} {call : Call σ} {s : State σ} {w : World σ},
      Trail start past (some call) s → past = before ++ m :: mid →
      (∀ m' ∈ mid, ∀ w, m'.Yields w → R m'.state.world w) →
      Moment.Yields ⟨.making call, s⟩ w → (mid ≠ [] → ∃ w, m.Yields w ∧ R w s.world) →
      ∃ w', m.Yields w' ∧ R w' w := by
    intro past mid call s w trail split yields yielded earlier
    obtain ⟨earlierPast, same, -⟩ := trail.awaits
    rcases split_concat (same.symm.trans split) with ⟨-, rfl, -⟩ | ⟨rest, -, rfl⟩
    · exact ⟨w, yielded, refl _⟩
    · obtain ⟨w', first, leads⟩ := earlier (by simp)
      exact ⟨w', first, IsTrans.trans _ _ _ leads
        (yields _ (List.mem_append_right _ (List.mem_singleton.mpr rfl)) w yielded)⟩
  have on : ∀ {u v : World σ}, R u v → (∃ w, m.Yields w ∧ R w u) → ∃ w, m.Yields w ∧ R w v :=
    fun step ⟨w, yielded, leads⟩ => ⟨w, yielded, IsTrans.trans _ _ _ leads step⟩
  induction trail generalizing mid with
  | start => exact absurd split (by simp)
  | noted _ happening _ ih => exact on (goes.noted happening _) (ih split yields (.inl rfl))
  | changed _ _ ih => exact ih split yields (.inl rfl)
  | listened _ document element callback ih =>
      exact on (goes.listened document element _ _) (ih split yields (.inl rfl))
  | @subscribed _ s _ hub event callback ih =>
      refine marked (s := s) rfl split fun rest was longer => ?_
      subst longer
      exact on (goes.subscribed hub event _ _) (ih was (shorter yields) (.inl rfl))
  | @making _ s _ call ih =>
      rcases split_concat split with ⟨-, -, rfl⟩ | ⟨rest, was, rfl⟩
      · exact absurd moved (by simp)
      · exact ih was (shorter yields) (.inl rfl)
  | @answered _ s _ call fire answer trail quiet performed ih =>
      refine marked (s := s) rfl split fun rest was longer => ?_
      subst longer
      exact made trail was (shorter yields) (.answered quiet performed) fun since =>
        ih was (shorter yields) (.inr since)
  | opened trail opens worked ih =>
      exact made trail split yields (.opened opens worked) fun since => ih split yields (.inr since)
  | @made _ s _ _ _ opens answer ih =>
      refine marked (s := s) rfl split fun rest was longer => ?_
      subst longer
      exact ih was (shorter yields) (.inl rfl)
  | @dispatching _ s _ signal ih =>
      refine marked (s := s) rfl split fun rest was longer => ?_
      subst longer
      exact ih was (shorter yields) (.inl rfl)
  | @calling _ _ s _ _ _ _ _ _ _ ih =>
      refine marked (s := s) rfl split fun rest was longer => ?_
      subst longer
      exact on (goes.noted _ _) (ih was (shorter yields) (.inl rfl))
  | @reacted _ s _ _ _ _ _ _ opens worked ih =>
      have leads := goes.reacted opens s
      rw [Run.Leads, worked] at leads
      exact on leads (ih split yields (.inl rfl))
  | closed _ closing ih => exact on (goes.closed closing _) (ih split yields (.inl rfl))

/-! ## What abides since a moment -/

omit m in
theorem goes_of_abiding {kept : World σ → Prop} (abiding : World.Abiding kept) :
    World.Goes (World.Carries kept) where
  noted happening _ := abiding.happened happening
  listened document element _ w := abiding.apart (World.apart_listen document element _ w)
  subscribed hub event _ w := abiding.apart (World.apart_subscribe hub event _ w)
  reacted opens _ := Run.upholds_reaction abiding opens
  closed closing _ := abiding.closed closing

/-- What abides holds of all that a moment yields, unless it binds properties. -/
theorem carries_of_yields {kept : World σ → Prop} (abiding : World.Abiding kept)
    (bound : ∀ model definitions, m.point = .making (.bindComputed model definitions) →
      Run.Upholds kept (Opening.bindComputed model definitions) m.state)
    {w : World σ} (yields : m.Yields w) : World.Carries kept m.state.world w := by
  cases yields with
  | still => exact id
  | @opened s t call opening ended opens worked =>
      have upheld : Run.Upholds kept opening s := by
        by_cases binds : ∃ model definitions, call = .bindComputed model definitions
        · obtain ⟨model, definitions, rfl⟩ := binds
          cases opens
          exact bound model definitions rfl
        · exact Run.upholds_opening abiding opens fun model definitions same =>
            binds ⟨model, definitions, same⟩
      rwa [Run.Upholds, Run.Leads, worked] at upheld
  | answered quiet performed => exact Run.upholds_perform abiding quiet performed

/-- What held at a moment and abides holds wherever the run gets after it, if every binding of
properties since leaves it so. -/
theorem abides_since {kept : World σ → Prop} (abiding : World.Abiding kept)
    (trail : Trail start past awaited s) (split : past = before ++ m :: mid)
    (held : kept m.state.world)
    (bound : ∀ m' ∈ m :: mid, ∀ model definitions,
      m'.point = .making (.bindComputed model definitions) →
      Run.Upholds kept (Opening.bindComputed model definitions) m'.state) : kept s.world := by
  by_cases moved : awaited = none ∨ mid ≠ []
  · obtain ⟨w, yields, leads⟩ := trail.since (goes_of_abiding abiding) split
      (fun m' listed _ => carries_of_yields abiding (bound m' (List.mem_cons_of_mem _ listed))) moved
    exact leads (carries_of_yields abiding (bound m List.mem_cons_self) yields held)
  · -- the call of the moment is still awaited
    obtain ⟨awaiting, rfl⟩ : awaited ≠ none ∧ mid = [] := by simpa [not_or] using moved
    obtain ⟨call, rfl⟩ := Option.ne_none_iff_exists'.mp awaiting
    obtain ⟨earlier, same, -⟩ := trail.awaits
    obtain ⟨-, made⟩ := List.append_inj' (same.symm.trans split) rfl
    rwa [← List.singleton_inj.mp made] at held

end Trail

namespace World

/-- The model has the properties of the row, but for their values, or none. -/
def KeepsRow (model : Ref .model) (row : Model σ) (other : Ref .model) (row' : Model σ) : Prop :=
  other = model → row.SameShape row' ∨ row'.properties = []

theorem rowLaw_keepsRow (model : Ref .model) (row : Model σ) : RowLaw (KeepsRow model row) where
  bare none _ := Or.inr none
  written had _ same := (had same).imp (·.trans (Model.sameShape_store _ _)) id
  adopted _ had found same := by
    refine (had same).imp (·.trans (Model.sameShape_adopt _ _ _)) fun none => ?_
    have listed := Model.mem_of_property? found
    rw [none] at listed
    cases listed

end World

namespace Trail

variable {start s : State σ} {past before mid : List (Moment σ)} {m : Moment σ}
  {awaited : Option (Call σ)}

/-- Until its properties are bound anew, a model has those that it had, but for their values, or
none. -/
theorem row_since {model : Ref .model} {row row' : Model σ} (trail : Trail start past awaited s)
    (split : past = before ++ m :: mid) (present : m.state.world.models.get? model = some row)
    (once : ∀ m' ∈ m :: mid, ∀ definitions, m'.point ≠ .making (.bindComputed model definitions))
    (present' : s.world.models.get? model = some row') :
    row.SameShape row' ∨ row'.properties = [] := by
  have lawful := World.rowLaw_keepsRow model row
  refine trail.abides_since lawful.abiding split (fun other m there same => ?_)
    (fun m' listed other definitions binding rows => ?_) model row' present' rfl
  · subst same
    cases present.symm.trans there
    exact Or.inl (.refl row)
  · refine Run.rows_bindComputed lawful (fun other m _ => rows other m) fun m _ _ _ same => ?_
    subst same
    exact absurd binding (once m' listed definitions)

end Trail

/-! ## What a call has ended -/

def Moment.Releases (model : Ref .model) (m : Moment σ) : Prop :=
  m.point = .making (.unbindComputed model) ∨
    ∃ definitions, m.point = .making (.bindComputed model definitions)

namespace Run

/-- Binding releases first what was bound. -/
theorem gone_bindComputed {s : State σ} {model : Ref .model} {p : Property σ}
    (balanced : s.world.InBalance) (binds : s.world.Binds model p)
    (definitions : List (String × Definition σ)) {sub : Subscription} (held : sub ∈ p.subscriptions) :
    Gone ((Opening.bindComputed model definitions).result s).2.world.hubs sub := by
  have listens := balanced.registered binds held
  have ended : (((s.world.hold (.model model)).unbindComputed model)).Ended p :=
    World.ended_unbindComputed (binds.of_models rfl)
  have unbound : Gone ((s.world.hold (.model model)).unbindComputed model).hubs sub :=
    .of_ended (World.lasts_unbindComputed model (s.world.hold (.model model))) balanced.ordered
      listens (ended sub held _)
  rw [Opening.bindComputed, Opening.keeping, result_alter_bind, Opening.result_closing,
    result_alter_bind, ← Opening.result_closing]
  -- what follows never brings it back
  have offered : False → ((s.world.hold (.model model)).unbindComputed model).Announced ∧
      ((s.world.hold (.model model)).unbindComputed model).Offers model definitions := False.elim
  have anew : Treads False False _ ((s.alter (.hold (.model model))).alter (.unbindComputed model)) :=
    treads_bindAnew offered
  have closed : Leads World.HubsLast (Opening.closing (.release (.model model)) _)
      ((s.alter (.hold (.model model))).alter (.unbindComputed model)) :=
    leads_closing (World.Steps.lasts anew) fun w => World.lasts_release (.model model) w
  exact unbound.lasts closed

end Run

theorem World.goes_hubsLast : World.Goes (σ := σ) World.HubsLast where
  noted _ w := .refl w.hubs
  listened document element callback w :=
    (Step.listen w document element callback : w.Step False False _).steps.lasts
  subscribed hub event callback w := World.lasts_subscribe hub event (.client callback) w
  reacted opens s := (Run.steps_reaction opens : Run.Treads False False _ s).lasts
  closed closing w := (Run.step_closing closing w : w.Step False False _).steps.lasts

namespace Moment

variable {m : Moment σ} {w : World σ}

theorem Yields.lasts (yields : m.Yields w) : m.state.world.HubsLast w := by
  cases yields with
  | still => exact .refl _
  | @opened s _ _ _ _ opens worked =>
      have steps : Run.Treads False False _ s := Run.steps_opening opens False.elim
      rw [Run.Treads, Run.Leads, worked] at steps
      exact steps.lasts
  | @answered s _ fire call _ quiet performed =>
      by_cases cancels : ∃ subscription, call = .cancel subscription
      · obtain ⟨subscription, rfl⟩ := cancels
        cases performed
        exact World.lasts_withdraw subscription s.world
      · have steps : Run.Treads False True _ s := Run.steps_perform fire quiet
          (fun subscription same => cancels ⟨subscription, same⟩) False.elim
        rw [Run.Treads, Run.Leads, performed] at steps
        exact steps.lasts

/-- What is released is gone before anything is dispatched. -/
theorem Releases.gone {model : Ref .model} {p : Property σ} (releases : m.Releases model)
    (balanced : m.state.world.InBalance) (binds : m.state.world.Binds model p)
    (yields : m.Yields w) {sub : Subscription} (held : sub ∈ p.subscriptions) : Gone w.hubs sub := by
  rcases releases with releases | ⟨definitions, releases⟩
  · cases yields with
    | still other => rw [Moment.awaited, releases] at other; cases other
    | opened opens _ => cases releases; cases opens
    | @answered s _ _ _ _ _ performed =>
        cases releases
        cases performed
        exact .of_ended (World.lasts_unbindComputed model s.world) balanced.ordered
          (balanced.registered binds held) (World.ended_unbindComputed binds sub held _)
  · cases yields with
    | still other => rw [Moment.awaited, releases] at other; cases other
    | opened opens worked =>
        cases releases
        cases opens
        have gone := Run.gone_bindComputed balanced binds definitions held
        rwa [worked] at gone
    | answered quiet _ => cases releases; cases quiet

end Moment

/-- And it stays so. -/
theorem Trail.gone_since {start s : State σ} {past before mid : List (Moment σ)} {m : Moment σ}
    (trail : Trail start past none s) (split : past = before ++ m :: mid) {model : Ref .model}
    {p : Property σ} (releases : m.Releases model) (balanced : m.state.world.InBalance)
    (binds : m.state.world.Binds model p) {sub : Subscription} (held : sub ∈ p.subscriptions) :
    Gone s.world.hubs sub := by
  obtain ⟨w, yields, lasts⟩ := trail.since World.goes_hubsLast split
    (fun _ _ _ yields => yields.lasts) (.inl rfl)
  exact (releases.gone balanced binds yields held).lasts lasts

end LiveBinding
