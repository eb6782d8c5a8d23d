/-
# LiveBinding.Proofs.Coherence -- computed values stay coherent under every write

A model is coherent when every computed property keeps what its getter gives for
what the model reads as now.  Between writes that is so, and no write ends
otherwise (`coherent_write`): not with several attributes stored before the first
event, not along chains and diamonds of properties, and not with listeners that
write again while others are still waiting for their turn.

In the middle of a dispatch it is not so.  Then every property that is behind has
a call to come on the stack of dispatches, which is what `Follower.Attentive`
says of one property at a time.
-/
import LiveBinding.Proofs.Follower.Property

namespace LiveBinding

set_option autoImplicit false

variable {σ : Type}

namespace World

/-- Every computed property of the model keeps what its getter, evaluated now,
gives. -/
def Coherent (w : World σ) (model : Ref .model) (client : σ) : Prop :=
  ∀ m, w.models.get? model = some m → ∀ p ∈ m.properties, ∃ value,
    (p.getter.run w.sight model false client .empty).outcome = .ok value ∧
      Json.same p.value value = true

theorem exists_same_of_isFresh {w : World σ} {model : Ref .model} {m : Model σ}
    {p : Property σ} {client : σ} (present : w.models.get? model = some m) (fresh : p.IsFresh m) :
    ∃ value, (p.getter.run w.sight model false client .empty).outcome = .ok value ∧
      Json.same p.value value = true := by
  obtain ⟨asked, value, gives, same⟩ := fresh
  refine ⟨value, ?_, same⟩
  rw [gives.run_eq (Run.sight_of_present present)]

/-- For a regular model, coherent means that all its properties are fresh. -/
theorem coherent_iff {w : World σ} {model : Ref .model} {m : Model σ} {client : σ}
    (present : w.models.get? model = some m) (regular : m.IsRegular) :
    w.Coherent model client ↔ ∀ p ∈ m.properties, p.IsFresh m := by
  constructor
  · intro coherent p listed
    obtain ⟨value, answered, same⟩ := coherent m present p listed
    exact (Follower.answered_isFresh regular listed present answered).2 rfl same
  · intro fresh m' present' p listed
    rw [present] at present'
    cases present'
    exact exists_same_of_isFresh present (fresh p listed)

end World

/-- A write that ends well, and on whose way nothing fails and no computed properties
are bound or released, leaves a coherent model coherent.  The callbacks that are
subscribed may be any programs. -/
theorem coherent_write {s t : State σ} {model : Ref .model} {m : Model σ}
    {attributes : Attributes} {depth : Nat} (reachable : Reachable s)
    (present : s.world.models.get? model = some m) (regular : m.IsRegular)
    (coherent : s.world.Coherent model s.client)
    (ended : (Run.write (Run.dispatch depth) model attributes).result s = (.ok (), t))
    (undisturbed : s.world.Undisturbed t.world) : t.world.Coherent model t.client := by
  have fresh := (World.coherent_iff present regular).mp coherent
  -- each property by itself is followed through the write
  intro m' present' p' listed'
  obtain ⟨p, admits, named⟩ := m.exists_admits p'
  have ready : (Follower.ofProperty model m p).Ready [] s :=
    Follower.ofProperty_ready (sound_of_reachable reachable) present
  have takes := (Follower.takes_write (Follower.ofProperty_robust model regular admits)
    (Follower.attentive_ofProperty regular admits depth) model attributes _ _ ended (by simp)).2.1
  obtain ⟨readyThen, brings⟩ := takes ready undisturbed.2
  have freshThen := brings undisturbed.1 fun m'' present'' q found => by
    rw [present] at present''
    cases present''
    exact fresh q (Model.mem_of_property? found)
  have regularThen := (readyThen.1.2.2 m' present').isRegular regular
  have found : m'.property? p.name = some p' := by
    rw [named]
    exact Model.property?_of_mem regularThen.distinct listed'
  exact World.exists_same_of_isFresh present' (freshThen m' present' p' found)

/-! ## A run -/

namespace Sample

def greeting : Getter Unit :=
  .read none true "name" fun name => .done (.text ("Hello " ++ name.displayText))

def chorus : Getter Unit :=
  .read none true "greeting" fun said => .done (.text (said.displayText ++ said.displayText))

/-- A model whose properties depend on one another, and a listener that writes
again as soon as the greeting changes. -/
def greeter : Program Unit :=
  .call (.openModel [("name", .text "Ada")]) fun (model : Ref .model) =>
    .call (.bindComputed model [("greeting", .ofGetter greeting), ("chorus", .ofGetter chorus)])
      fun _ => .subscribe ⟨0⟩ (changeOf "greeting")
        (fun _ => .call (.write model [("name", .text "Eve")]) fun _ => .done) fun _ => .done

def greeted : State Unit :=
  ((Run.run 4 greeter).result ⟨.empty, [], ()⟩).2

def person : Model Unit :=
  ⟨⟨0⟩, [("name", .text "Ada")],
    [⟨"greeting", greeting, none, true, .text "Hello Ada",
        [⟨⟨0⟩, "change:name"⟩], [⟨⟨0⟩, 0, "change:name"⟩]⟩,
      ⟨"chorus", chorus, none, true, .text "Hello AdaHello Ada",
        [⟨⟨0⟩, "change:greeting"⟩], [⟨⟨0⟩, 1, "change:greeting"⟩]⟩]⟩

def renamed : State Unit :=
  ((Run.write (Run.dispatch 6) ⟨0⟩ [("name", .text "Bob")]).result greeted).2

theorem mem_person {p : Property Unit} (listed : p ∈ person.properties) :
    p = ⟨"greeting", greeting, none, true, .text "Hello Ada",
        [⟨⟨0⟩, "change:name"⟩], [⟨⟨0⟩, 0, "change:name"⟩]⟩ ∨
      p = ⟨"chorus", chorus, none, true, .text "Hello AdaHello Ada",
        [⟨⟨0⟩, "change:greeting"⟩], [⟨⟨0⟩, 1, "change:greeting"⟩]⟩ := by
  simpa [person] using listed

theorem person_isRegular : person.IsRegular where
  distinct := by decide
  asks := by
    intro p listed
    rcases mem_person listed with rfl | rfl
    · exact ⟨["name"], fun look => ⟨["name"], .ok _, .read (.done _), by simp, by rintro _ ⟨⟩; rfl⟩⟩
    · exact ⟨["greeting"], fun look =>
        ⟨["greeting"], .ok _, .read (.done _), by simp, by rintro _ ⟨⟩; rfl⟩⟩
  maps := by
    intro p listed setter given
    rcases mem_person listed with rfl | rfl
    · cases given
    · cases given

theorem greeted_coherent : greeted.world.Coherent ⟨0⟩ () := by
  refine (World.coherent_iff (m := person) rfl person_isRegular).mpr fun p listed => ?_
  rcases mem_person listed with rfl | rfl
  · exact ⟨_, _, .read (.done _), rfl⟩
  · exact ⟨_, _, .read (.done _), rfl⟩

end Sample

open Sample in
/-- Somebody else is greeted, after the listener has written once more. -/
theorem coherent_write_greeter :
    greeted.world.Coherent ⟨0⟩ greeted.client ∧ renamed.world.Coherent ⟨0⟩ renamed.client := by
  have reachable : Reachable greeted := ⟨(), 4, greeter, .ok (), nofun, rfl⟩
  have ended : (Run.write (Run.dispatch 6) ⟨0⟩ [("name", .text "Bob")]).result greeted =
      (.ok (), renamed) := Run.result_of_isOk (by decide +kernel)
  have undisturbed : greeted.world.Undisturbed renamed.world := by
    refine ⟨?_, ?_⟩
    · decide +kernel
    · decide +kernel
  exact ⟨greeted_coherent,
    coherent_write reachable rfl person_isRegular greeted_coherent ended undisturbed⟩

end LiveBinding
