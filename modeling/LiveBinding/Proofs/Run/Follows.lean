/-
# LiveBinding.Proofs.Run.Follows -- what work does to the state, put together

`Follows R work s` says that work started in `s` ends in a state that `R` relates
to `s`, that the journal goes on, and that a failure of the work is noted in it.
It is proved of the parts of work and then holds of the whole, one lemma for each
way of putting work together.

Work that runs out of the depth of its dispatches has no end to speak of, so
nothing is asked of it.
-/
import LiveBinding.Proofs.Run.Errand
import LiveBinding.Proofs.Run.Journal

namespace LiveBinding

set_option autoImplicit false

variable {σ α β : Type}

namespace Run

/-- A relation between a state and a later one in which stretches of work can be
put together. -/
structure Onward (R : State σ → State σ → Prop) : Prop where
  refl : ∀ s, R s s
  trans : ∀ {s t u}, s.world.Before t.world → t.world.Before u.world → R s t → R t u → R s u

/-- Work started in `s` goes on with the journal, notes its failure there, and
ends in a state related to `s`. -/
def Follows (R : State σ → State σ → Prop) (work : Run σ α) (s : State σ) : Prop :=
  ∀ ended t, work.result s = (ended, t) → ended ≠ .error .exhausted →
    s.world.Before t.world ∧ R s t ∧
      ∀ error, ended = .error (.failed error) → s.world.Failed t.world

/-! ## Parts with relations of their own -/

section Parts

variable {R A B : State σ → State σ → Prop} {work : Run σ α} {next : α → Run σ β} {s : State σ}

theorem Follows.mono (follows : Follows A work s)
    (weaker : ∀ t, s.world.Before t.world → A s t → R s t) : Follows R work s := by
  intro ended t worked deep
  obtain ⟨before, related, noted⟩ := follows ended t worked deep
  exact ⟨before, weaker t before related, noted⟩

/-- Two stretches of work, each with its own relation: `join` puts them together,
and `stop` speaks of a first stretch that fails. -/
theorem Follows.bind_of (first : Follows A work s)
    (rest : ∀ a t, work.result s = (.ok a, t) → Follows B (next a) t)
    (stop : ∀ error t, work.result s = (.error (.failed error), t) → s.world.Failed t.world →
      A s t → R s t)
    (join : ∀ t u, s.world.Before t.world → t.world.Before u.world → A s t → B t u → R s u) :
    Follows R (work >>= next) s := by
  intro ended u worked deep
  rcases part : work.result s with ⟨halt | a, t⟩
  · rw [result_bind_error part] at worked
    cases worked
    have deep' : (Except.error halt : Except Halt α) ≠ .error .exhausted := by
      intro same; cases same; exact deep rfl
    obtain ⟨before, related, noted⟩ := first _ _ part deep'
    cases halt with
    | failed error =>
        have failed := noted error rfl
        refine ⟨before, stop error _ part failed related, ?_⟩
        rintro _ ⟨rfl⟩
        exact failed
    | exhausted => exact absurd rfl deep
  · rw [result_bind_ok part] at worked
    obtain ⟨before, related, -⟩ := first _ t part (by simp)
    obtain ⟨beforeThen, relatedThen, noted⟩ := rest a t part ended u worked deep
    refine ⟨before.trans beforeThen, join t u before beforeThen related relatedThen, ?_⟩
    intro error failing
    exact (World.saw_trans before beforeThen).mpr (Or.inr (noted error failing))

/-- A change of the world, and then work. -/
theorem Follows.alter_bind {f : World σ → World σ} {next : Unit → Run σ β}
    (before : s.world.Before (f s.world)) (rest : Follows B (next ()) (s.alter f))
    (join : ∀ u, B (s.alter f) u → R s u) : Follows R (alter f >>= next) s := by
  intro ended u worked deep
  rw [result_alter_bind] at worked
  obtain ⟨beforeThen, related, noted⟩ := rest ended u worked deep
  refine ⟨before.trans beforeThen, join u related, fun error failing => ?_⟩
  exact (World.saw_trans before beforeThen).mpr (Or.inr (noted error failing))

theorem Follows.world_bind {next : World σ → Run σ β} (follows : Follows R (next s.world) s) :
    Follows R (Run.world >>= next) s := by
  intro ended t worked
  rw [result_world_bind] at worked
  exact follows ended t worked

theorem Follows.get_bind {next : State σ → Run σ β} (follows : Follows R (next s) s) :
    Follows R (get >>= next) s := by
  intro ended t worked
  rw [result_bind_ok (result_get s)] at worked
  exact follows ended t worked

theorem follows_alter {f : World σ → World σ} (before : s.world.Before (f s.world))
    (related : R s (s.alter f)) : Follows R (alter f) s := by
  intro ended t worked _
  rw [result_alter] at worked
  cases worked
  exact ⟨before, related, by rintro _ ⟨⟩⟩

theorem follows_produce {f : World σ → α × World σ} (before : s.world.Before (f s.world).2)
    (related : R s (s.alter fun w => (f w).2)) : Follows R (produce f) s := by
  intro ended t worked _
  rw [result_produce] at worked
  cases worked
  exact ⟨before, related, by rintro _ ⟨⟩⟩

theorem follows_modify {f : State σ → State σ} (before : s.world.Before (f s).world)
    (related : R s (f s)) : Follows R (modify f : Run σ Unit) s := by
  intro ended t worked _
  rw [result_modify] at worked
  cases worked
  exact ⟨before, related, by rintro _ ⟨⟩⟩

theorem follows_fail {error : Error} (related : R s (s.alter (.happen (.failed error)))) :
    Follows R (fail error : Run σ α) s := by
  intro ended t worked _
  rw [result_fail] at worked
  cases worked
  exact ⟨World.before_happen _ _, related, fun _ _ => World.failed_happen _ _⟩

/-- A failure that becomes an answer stays in the journal. -/
theorem Follows.attempt (follows : Follows R work s) : Follows R (attempt work) s := by
  intro ended t worked deep
  rw [result_attempt] at worked
  split at worked
  all_goals rename_i part; cases worked
  · obtain ⟨before, related, -⟩ := follows _ t part (by simp)
    exact ⟨before, related, by rintro _ ⟨⟩⟩
  · obtain ⟨before, related, -⟩ := follows _ t part (by simp)
    exact ⟨before, related, by rintro _ ⟨⟩⟩
  · exact absurd rfl deep

end Parts

/-! ## One relation throughout -/

section Throughout

variable {R : State σ → State σ → Prop} (onward : Onward R) {work : Run σ α} {s : State σ}

include onward

theorem Onward.follows_pure (a : α) : Follows R (pure a : Run σ α) s := by
  intro ended t worked _
  rw [result_pure] at worked
  cases worked
  exact ⟨World.Before.refl _, onward.refl s, by rintro _ ⟨⟩⟩

theorem Onward.bind {next : α → Run σ β} (first : Follows R work s)
    (rest : ∀ a t, work.result s = (.ok a, t) → Follows R (next a) t) :
    Follows R (work >>= next) s :=
  first.bind_of rest (fun _ _ _ _ related => related)
    fun _ _ before beforeThen related relatedThen =>
      onward.trans before beforeThen related relatedThen

theorem Onward.lastly {last : World σ → World σ} (follows : Follows R work s)
    (before : ∀ t : State σ, t.world.Before (last t.world)) (related : ∀ t, R t (t.alter last)) :
    Follows R (work.lastly last) s := by
  intro ended u worked deep
  rw [result_lastly] at worked
  cases worked
  obtain ⟨beforeLast, relatedLast, noted⟩ := follows _ _ rfl deep
  refine ⟨beforeLast.trans (before _), onward.trans beforeLast (before _) relatedLast (related _), ?_⟩
  intro error failing
  exact (World.saw_trans beforeLast (before _)).mpr (Or.inl (noted error failing))

theorem Onward.alter_bind {f : World σ → World σ} {next : Unit → Run σ β}
    (before : s.world.Before (f s.world)) (related : R s (s.alter f))
    (rest : Follows R (next ()) (s.alter f)) : Follows R (alter f >>= next) s :=
  onward.bind (follows_alter before related) fun _ _ altered => by
    rw [result_alter] at altered
    cases altered
    exact rest

theorem Onward.produce_bind {f : World σ → α × World σ} {next : α → Run σ β}
    (before : s.world.Before (f s.world).2) (related : R s (s.alter fun w => (f w).2))
    (rest : Follows R (next (f s.world).1) (s.alter fun w => (f w).2)) :
    Follows R (produce f >>= next) s := by
  refine onward.bind (follows_produce before related) fun a t produced => ?_
  rw [result_produce] at produced
  cases produced
  exact rest

/-! ### Errands -/

variable {opening : Run σ Errand}

omit onward in
/-- Closings leave the journal alone. -/
theorem journal_closing (closing : Closing) (w : World σ) :
    (closing.apply w).journal = w.journal := by
  cases closing with
  | release handle => exact World.journal_release handle w
  | resetSpans spans => rfl

/-- An opening closes what it has to close if it fails. -/
theorem Onward.closing {last : Closing} (follows : Follows R opening s)
    (closes : ∀ t, R t (t.alter last.apply)) : Follows R (Opening.closing last opening) s := by
  intro ended u worked deep
  rw [Opening.result_closing] at worked
  rcases opened : opening.result s with ⟨halt | settled, t⟩
  · rw [opened] at worked
    cases worked
    have deep' : (Except.error halt : Except Halt Errand) ≠ .error .exhausted := by
      intro same
      cases same
      exact deep rfl
    obtain ⟨before, related, noted⟩ := follows _ t opened deep'
    have beforeLast : t.world.Before (t.alter last.apply).world :=
      World.before_of_eq (journal_closing last t.world)
    refine ⟨before.trans beforeLast, onward.trans before beforeLast related (closes t), ?_⟩
    rintro error ⟨⟩
    exact (World.saw_trans before beforeLast).mpr (Or.inl (noted error rfl))
  · rw [opened] at worked
    cases worked
    obtain ⟨before, related, -⟩ := follows _ _ opened (by simp)
    exact ⟨before, related, by rintro _ ⟨⟩⟩

theorem Onward.opening_keeping {handle : Handle} (held : R s (s.alter (.hold handle)))
    (released : ∀ t, R t (t.alter (.release handle)))
    (follows : Follows R opening (s.alter (.hold handle))) :
    Follows R (Opening.keeping handle opening) s :=
  onward.alter_bind (World.before_of_eq rfl) held (onward.closing follows released)

theorem Onward.close (closes : ∀ (closing : Closing) t, R t (t.alter closing.apply))
    (settled : Errand) (t : State σ) :
    t.world.Before (settled.close t.world) ∧ R t (t.alter settled.close) := by
  obtain ⟨signals, closings⟩ := settled
  induction closings generalizing t with
  | nil => exact ⟨World.Before.refl _, onward.refl t⟩
  | cons closing rest ih =>
      have first : t.world.Before (t.alter closing.apply).world :=
        World.before_of_eq (journal_closing closing t.world)
      obtain ⟨before, related⟩ := ih (t.alter closing.apply)
      exact ⟨first.trans before, onward.trans first before (closes closing t) related⟩

theorem Onward.fireAll {fire : Fire σ} (fires : ∀ signal t, Follows R (fire signal) t)
    (signals : List Signal) : Follows R (fireAll fire signals) s := by
  induction signals generalizing s with
  | nil => exact onward.follows_pure ()
  | cons signal rest ih => exact onward.bind (fires signal s) fun _ _ _ => ih

/-- Work follows along with its opening, its dispatches and its closings. -/
theorem Onward.errand {fire : Fire σ} (follows : Follows R opening s)
    (fires : ∀ signal t, Follows R (fire signal) t)
    (closes : ∀ (closing : Closing) t, R t (t.alter closing.apply)) :
    Follows R (errand fire opening) s :=
  onward.bind follows fun settled _ _ => onward.lastly (onward.fireAll fires settled.signals)
    (fun t => (onward.close closes settled t).1) fun t => (onward.close closes settled t).2

end Throughout

end Run

end LiveBinding
