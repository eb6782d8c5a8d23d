/-
# LiveBinding.Proofs.Run.Leads -- where work leads

`Drives R work s` says that the state left by work started in `s` is related to the one
that it found, however the work ends.  For a relation along which one can go on, such as
what is reached by steps or what keeps an invariant, it is proved of the parts of work
and then holds of the whole: one lemma for each way of putting work together.

Most relations speak of the world only, and then `Leads R work s` is what is meant.
-/
import LiveBinding.Proofs.Run.Errand
import Mathlib.Order.Defs.Unbundled

namespace LiveBinding

set_option autoImplicit false

variable {σ α β : Type}

/-- What holds before holds after. -/
def World.Carries (kept : World σ → Prop) (v w : World σ) : Prop :=
  kept v → kept w

instance (kept : World σ → Prop) : IsPreorder (World σ) (World.Carries kept) where
  refl _ := id
  trans _ _ _ first then_ := then_ ∘ first

/-- The worlds of the states are related. -/
def State.Through (R : World σ → World σ → Prop) (s t : State σ) : Prop :=
  R s.world t.world

instance (R : World σ → World σ → Prop) [IsPreorder (World σ) R] :
    IsPreorder (State σ) (State.Through R) where
  refl s := refl_of R s.world
  trans _ _ _ first then_ := trans_of R first then_

namespace Run

/-! ## States -/

section States

variable {R : State σ → State σ → Prop} {s : State σ} {work : Run σ α}

/-- The state that the work leaves is related to the one that it finds. -/
def Drives (R : State σ → State σ → Prop) (work : Run σ α) (s : State σ) : Prop :=
  R s (work.result s).2

theorem Drives.attempt (drives : Drives R work s) : Drives R (attempt work) s := by
  unfold Drives at drives ⊢
  rw [result_attempt]
  rcases worked : work.result s with ⟨(error | _) | a, t⟩
  all_goals
    rw [worked] at drives
    exact drives

theorem Drives.world_bind {next : World σ → Run σ β} (rest : Drives R (next s.world) s) :
    Drives R (Run.world >>= next) s := by
  rw [Drives, result_world_bind]
  exact rest

variable [IsPreorder (State σ) R]

theorem drives_pure (a : α) : Drives R (pure a : Run σ α) s := refl_of R s

theorem Drives.bind {next : α → Run σ β} (first : Drives R work s)
    (rest : ∀ a t, work.result s = (.ok a, t) → Drives R (next a) t) :
    Drives R (work >>= next) s := by
  unfold Drives at first ⊢
  rcases worked : work.result s with ⟨halt | a, t⟩
  · rw [worked] at first
    rwa [result_bind_error worked]
  · rw [worked] at first
    rw [result_bind_ok worked]
    exact trans_of R first (rest a t worked)

theorem Drives.alter_bind {f : World σ → World σ} {next : Unit → Run σ β}
    (related : R s (s.alter f)) (rest : Drives R (next ()) (s.alter f)) :
    Drives R (alter f >>= next) s :=
  (show Drives R (alter f) s from related).bind fun _ _ worked => by cases worked; exact rest

theorem Drives.lastly {last : World σ → World σ} (drives : Drives R work s)
    (related : ∀ t : State σ, R t (t.alter last)) : Drives R (work.lastly last) s :=
  trans_of R drives (related _)

theorem Drives.within {span : Span}
    (spanned : ∀ spans (t : State σ), R t (t.alter fun w => { w with spans := spans }))
    (drives : Drives R work (s.alter fun w => { w with spans := s.world.spans ++ [span] })) :
    Drives R (within span work) s :=
  .world_bind (.alter_bind (spanned _ s) (drives.lastly (spanned _)))

variable {opening : Run σ Errand}

/-- An opening closes what it has to close if it fails. -/
theorem drives_closing {last : Closing} (drives : Drives R opening s)
    (related : ∀ t : State σ, R t (t.alter last.apply)) :
    Drives R (Opening.closing last opening) s := by
  unfold Drives at drives ⊢
  rw [Opening.result_closing]
  rcases worked : opening.result s with ⟨halt | settled, t⟩
  · rw [worked] at drives
    exact trans_of R drives (related t)
  · rw [worked] at drives
    exact drives

theorem drives_keeping {handle : Handle} (held : R s (s.alter (.hold handle)))
    (released : ∀ t : State σ, R t (t.alter (.release handle)))
    (drives : Drives R opening (s.alter (.hold handle))) :
    Drives R (Opening.keeping handle opening) s :=
  .alter_bind held (drives_closing drives released)

end States

/-! ## Worlds -/

section Worlds

variable {R : World σ → World σ → Prop} {s : State σ} {work : Run σ α}

/-- The world that the work leaves is related to the one that it finds. -/
def Leads (R : World σ → World σ → Prop) (work : Run σ α) (s : State σ) : Prop :=
  R s.world (work.result s).2.world

theorem leads_alter {f : World σ → World σ} (related : R s.world (f s.world)) :
    Leads R (alter f) s := related

theorem leads_produce {f : World σ → α × World σ} (related : R s.world (f s.world).2) :
    Leads R (produce f) s := related

theorem leads_fail {error : Error} (related : R s.world (s.world.happen (.failed error))) :
    Leads R (fail error : Run σ α) s := related

theorem Leads.attempt (leads : Leads R work s) : Leads R (attempt work) s :=
  Drives.attempt (R := State.Through R) leads

theorem Leads.world_bind {next : World σ → Run σ β} (rest : Leads R (next s.world) s) :
    Leads R (Run.world >>= next) s :=
  Drives.world_bind (R := State.Through R) rest

variable [IsPreorder (World σ) R]

theorem leads_pure (a : α) : Leads R (pure a : Run σ α) s := refl s.world

theorem Leads.bind {next : α → Run σ β} (first : Leads R work s)
    (rest : ∀ a t, work.result s = (.ok a, t) → Leads R (next a) t) :
    Leads R (work >>= next) s :=
  Drives.bind (R := State.Through R) first rest

theorem Leads.alter_bind {f : World σ → World σ} {next : Unit → Run σ β}
    (related : R s.world (f s.world)) (rest : Leads R (next ()) (s.alter f)) :
    Leads R (alter f >>= next) s :=
  Drives.alter_bind (R := State.Through R) related rest

theorem Leads.within {span : Span} (spanned : ∀ (w : World σ) spans, R w { w with spans := spans })
    (leads : Leads R work (s.alter fun w => { w with spans := s.world.spans ++ [span] })) :
    Leads R (within span work) s :=
  Drives.within (R := State.Through R) (fun spans t => spanned t.world spans) leads

variable {opening : Run σ Errand}

theorem leads_closing {last : Closing} (leads : Leads R opening s)
    (related : ∀ w : World σ, R w (last.apply w)) : Leads R (Opening.closing last opening) s :=
  drives_closing (R := State.Through R) leads fun t => related t.world

theorem leads_keeping {handle : Handle} (held : R s.world (s.world.hold handle))
    (released : ∀ w : World σ, R w (w.release handle))
    (leads : Leads R opening (s.alter (.hold handle))) :
    Leads R (Opening.keeping handle opening) s :=
  drives_keeping (R := State.Through R) held (fun t => released t.world) leads

end Worlds

end Run

end LiveBinding
