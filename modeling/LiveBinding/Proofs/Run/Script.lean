/-
# LiveBinding.Proofs.Run.Script -- how scripts end

A script is a part of a program, so it has no result of its own.  That it ends in a
state with an outcome says that whatever is done next is done from there
(`Script.Ends`).  Scripts put together end as their parts do.
-/
import LiveBinding.Proofs.Run.Result
import LiveBinding.Run.Script

namespace LiveBinding

set_option autoImplicit false

variable {σ α β : Type}

namespace Script

/-- Carried out from `s` the script comes to this end, and leaves `t`. -/
def Ends (fire : Fire σ) (script : Script σ α) (s : State σ) (ended : Except Error α)
    (t : State σ) : Prop :=
  ∀ next, (Run.exec fire (script.run next)).result s = (Run.exec fire (next ended)).result t

variable {fire : Fire σ} {s t u : State σ}

theorem Ends.bind {script : Script σ α} {f : α → Script σ β} {a : α} {ended : Except Error β}
    (first : Ends fire script s (.ok a) t) (then_ : Ends fire (f a) t ended u) :
    Ends fire (script >>= f) s ended u := by
  intro next
  exact (first _).trans (then_ next)

theorem Ends.bind_error {script : Script σ α} {f : α → Script σ β} {error : Error}
    (first : Ends fire script s (.error error) t) : Ends fire (script >>= f) s (.error error) t :=
  fun _ => first _

theorem Ends.attempt {script : Script σ α} {ended : Except Error α} (ends : Ends fire script s ended t) :
    Ends fire script.attempt s (.ok ended) t :=
  fun next => ends fun ended => next (.ok ended)

theorem ends_done (a : α) : Ends fire (done a) s (.ok a) s :=
  fun _ => rfl

theorem ends_fail (error : Error) : Ends fire (fail error : Script σ α) s (.error error) s :=
  fun _ => rfl

theorem ends_ofExcept (outcome : Except Error α) : Ends fire (ofExcept outcome) s outcome s := by
  cases outcome with
  | ok value => exact fun _ => rfl
  | error error => exact fun _ => rfl

theorem result_call (call : Call σ) {answer : call.Answer}
    (performed : (Run.perform fire call).result s = (.ok answer, t))
    (next : call.Answer → Program σ) :
    (Run.exec fire (.call call next)).result s = (Run.exec fire (next answer)).result t := by
  rw [Run.exec, Run.result_bind_ok performed]

theorem ends_openModel (attributes : Attributes) :
    Ends fire (openModel attributes) s (.ok s.world.models.fresh)
      (s.alter fun w => (w.openModel attributes).2) :=
  fun _ => result_call (.openModel attributes) rfl _

theorem ends_openView (view : View) :
    Ends fire (openView view) s (.ok s.world.views.fresh)
      (s.alter fun w => (w.openView view).2) :=
  fun _ => result_call (.openView view) rfl _

theorem ends_act (call : Call σ) {answer : call.Answer}
    (performed : (Run.perform fire call).result s = (.ok answer, t)) :
    Ends fire (act call) s (.ok ()) t :=
  fun _ => result_call call performed _

theorem ends_bindComputed {model : Ref .model} {definitions : List (String × Definition σ)}
    (bound : (Run.bindComputed fire model definitions).result s = (.ok (), t)) :
    Ends fire (bindComputed model definitions) s (.ok ()) t := by
  have answered : (Run.attempt (Run.bindComputed fire model definitions)).result s =
      (.ok (.ok ()), t) := by
    rw [Run.result_attempt, bound]
  intro next
  exact result_call (.bindComputed model definitions) answered next

theorem ends_bindComputed_error {model : Ref .model} {definitions : List (String × Definition σ)}
    {error : Error}
    (failed : (Run.bindComputed fire model definitions).result s = (.error (.failed error), t)) :
    Ends fire (bindComputed model definitions) s (.error error) t := by
  have answered : (Run.attempt (Run.bindComputed fire model definitions)).result s =
      (.ok (.error error), t) := by
    rw [Run.result_attempt, failed]
  intro next
  exact result_call (.bindComputed model definitions) answered next

end Script

end LiveBinding
