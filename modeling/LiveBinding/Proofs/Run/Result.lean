/-
# LiveBinding.Proofs.Run.Result -- work as a function on states

Work is carried out from a state; `Run.result` is how it ends, with the state
that it leaves.  Each way of putting work together has one equation for its
result (`result_bind`, `result_attempt`, ...), so that what a piece of work does
can be computed from a given state without opening the monads it is made of.
-/
import LiveBinding.Run.Dispatch

namespace LiveBinding

set_option autoImplicit false

variable {σ α β : Type}

def Run.result (work : Run σ α) (s : State σ) : Except Halt α × State σ :=
  ExceptT.run work s

def State.alter (f : World σ → World σ) (s : State σ) : State σ :=
  { s with world := f s.world }

@[simp] theorem State.alter_world (f : World σ → World σ) (s : State σ) :
    (s.alter f).world = f s.world := rfl

theorem State.alter_congr {f g : World σ → World σ} {s : State σ} (same : f s.world = g s.world) :
    s.alter f = s.alter g := by
  rw [State.alter, State.alter, same]

@[simp] theorem State.alter_client (f : World σ → World σ) (s : State σ) :
    (s.alter f).client = s.client := rfl

namespace Run

theorem result_bind (work : Run σ α) (next : α → Run σ β) (s : State σ) :
    (work >>= next).result s =
      match work.result s with
      | (.ok a, t) => (next a).result t
      | (.error halt, t) => (.error halt, t) := by
  show ExceptT.bind work next s = _
  simp only [ExceptT.bind, ExceptT.mk, ExceptT.bindCont, bind, StateT.bind, result, ExceptT.run]
  rcases work s with ⟨_ | _, _⟩ <;> rfl

theorem result_bind_ok {work : Run σ α} {next : α → Run σ β} {s t : State σ} {a : α}
    (ended : work.result s = (.ok a, t)) : (work >>= next).result s = (next a).result t := by
  rw [result_bind, ended]

theorem result_bind_error {work : Run σ α} {next : α → Run σ β} {s t : State σ} {halt : Halt}
    (ended : work.result s = (.error halt, t)) :
    (work >>= next).result s = (.error halt, t) := by
  rw [result_bind, ended]

@[simp] theorem result_pure (a : α) (s : State σ) : (pure a : Run σ α).result s = (.ok a, s) :=
  rfl

@[simp] theorem result_alter (f : World σ → World σ) (s : State σ) :
    (alter f).result s = (.ok (), s.alter f) := rfl

@[simp] theorem result_produce (f : World σ → α × World σ) (s : State σ) :
    (produce f).result s = (.ok (f s.world).1, s.alter fun w => (f w).2) := rfl

@[simp] theorem result_get (s : State σ) : (get : Run σ (State σ)).result s = (.ok s, s) := rfl

@[simp] theorem result_modify (f : State σ → State σ) (s : State σ) :
    (modify f : Run σ Unit).result s = (.ok (), f s) := rfl

@[simp] theorem result_fail (error : Error) (s : State σ) :
    (fail error : Run σ α).result s =
      (.error (.failed error), s.alter (.happen (.failed error))) := rfl

theorem result_world_bind (next : World σ → Run σ β) (s : State σ) :
    (Run.world >>= next).result s = (next s.world).result s :=
  result_bind_ok rfl

theorem result_alter_bind (f : World σ → World σ) (next : Unit → Run σ β) (s : State σ) :
    (alter f >>= next).result s = (next ()).result (s.alter f) :=
  result_bind_ok rfl

theorem result_lastly (work : Run σ α) (last : World σ → World σ) (s : State σ) :
    (work.lastly last).result s = ((work.result s).1, (work.result s).2.alter last) := rfl

theorem result_within (span : Span) (work : Run σ α) (s : State σ) :
    (within span work).result s =
      (work.lastly fun w => { w with spans := s.world.spans }).result
        (s.alter fun w => { w with spans := s.world.spans ++ [span] }) := by
  simp only [within, result_world_bind, result_alter_bind]

theorem result_keeping (handle : Handle) (work : Run σ α) (s : State σ) :
    (keeping handle work).result s =
      (work.lastly (.release handle)).result (s.alter (.hold handle)) := by
  simp only [keeping, result_alter_bind]

theorem result_attempt (work : Run σ α) (s : State σ) :
    (attempt work).result s =
      match work.result s with
      | (.ok a, t) => (.ok (.ok a), t)
      | (.error (.failed error), t) => (.ok (.error error), t)
      | (.error .exhausted, t) => (.error .exhausted, t) := rfl

theorem attempt_ok {work : Run σ α} {s t : State σ} {answer : Except Error α}
    (ended : (attempt work).result s = (.ok answer, t)) :
    (∃ a, answer = .ok a ∧ work.result s = (.ok a, t)) ∨
      ∃ error, answer = .error error ∧ work.result s = (.error (.failed error), t) := by
  rw [result_attempt] at ended
  split at ended
  · rename_i a t' worked
    cases ended
    exact Or.inl ⟨a, rfl, worked⟩
  · rename_i error t' worked
    cases ended
    exact Or.inr ⟨error, rfl, worked⟩
  · cases ended

/-- Work that is undone when it fails ends well itself, or fails and was undone. -/
theorem undone {work : Run σ α} {rest : Except Error α → Run σ β} {undo : World σ → World σ}
    {next : α → β} {s t : State σ} {ended : Except Halt β}
    (worked : (attempt work >>= rest).result s = (ended, t))
    (well : ∀ a, rest (.ok a) = pure (next a))
    (failed : ∀ error, rest (.error error) = do
      alter undo
      fail error) :
    (∃ a, work.result s = (.ok a, t) ∧ ended = .ok (next a)) ∨
      (∃ error u, work.result s = (.error (.failed error), u) ∧ ended = .error (.failed error) ∧
        t = (u.alter undo).alter (.happen (.failed error))) ∨
      work.result s = (.error .exhausted, t) := by
  have tried := result_attempt work s
  rcases ran : work.result s with ⟨(error | _) | a, u⟩
  all_goals rw [ran] at tried
  · rw [result_bind_ok tried, failed] at worked
    cases worked
    exact Or.inr (Or.inl ⟨error, u, rfl, rfl, rfl⟩)
  · rw [result_bind_error tried] at worked
    cases worked
    exact Or.inr (Or.inr rfl)
  · rw [result_bind_ok tried, well] at worked
    cases worked
    exact Or.inl ⟨a, rfl, rfl⟩

/-- Work that is bound to other work, and ends well, has both end well. -/
theorem bind_ok {work : Run σ α} {next : α → Run σ β} {s t : State σ} {b : β}
    (ended : (work >>= next).result s = (.ok b, t)) :
    ∃ a r, work.result s = (.ok a, r) ∧ (next a).result r = (.ok b, t) := by
  rw [result_bind] at ended
  split at ended
  · rename_i a r worked
    exact ⟨a, r, worked, ended⟩
  · cases ended

/-- Work that is bound to other work, and ends badly, has one of the two end so. -/
theorem bind_error {work : Run σ α} {next : α → Run σ β} {s t : State σ} {halt : Halt}
    (ended : (work >>= next).result s = (.error halt, t)) :
    work.result s = (.error halt, t) ∨
      ∃ a r, work.result s = (.ok a, r) ∧ (next a).result r = (.error halt, t) := by
  rw [result_bind] at ended
  split at ended
  · rename_i a r worked
    exact Or.inr ⟨a, r, worked, ended⟩
  · rename_i halt' r worked
    cases ended
    exact Or.inl worked

/-- A failure that is taken as an answer is none. -/
theorem attempt_ne_failed {work : Run σ α} {s t : State σ} {error : Error} :
    (attempt work).result s ≠ (.error (.failed error), t) := by
  intro ended
  rw [result_attempt] at ended
  split at ended <;> cases ended

/-- Whether work ends well can be computed. -/
theorem result_of_isOk {work : Run σ Unit} {s : State σ} (well : (work.result s).1.isOk = true) :
    work.result s = (.ok (), (work.result s).2) := by
  rcases ended : work.result s with ⟨halt | a, t⟩
  · rw [ended] at well
    cases well
  · rfl

end Run

end LiveBinding
