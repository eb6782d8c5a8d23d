/-
# LiveBinding.Proofs.Run.Telling -- each dispatch tells its event

A dispatch tells its event to everybody when it begins, and to each listener when that is
called.  In between properties are updated, each fed by what has just been told: it is below
it, and so is all that is told within (`Model.Reaches`).  So what a dispatch tells first, it
tells to the end, whatever is told meanwhile is of other names, and it reaches no listener
out of its turn (`attests_dispatch`).
-/
import LiveBinding.Proofs.Follower.Dispatch
import LiveBinding.Proofs.Run.Told

namespace LiveBinding

set_option autoImplicit false

variable {σ : Type}

/-- The signal announces the change of a name that feeds this one, directly or not. -/
def Model.Reaches (m : Model σ) (signal : Signal) (name : String) : Prop :=
  ∃ before event, signal = .event m.hub event ∧ event.name = changeOf before ∧
    Relation.TransGen m.Feeds before name

section Ranks

variable {m : Model σ} {rank : String → Nat}

theorem rank_lt_of_feeds (falls : ∀ before after, m.Feeds before after → rank after < rank before)
    {before after : String} (fed : Relation.TransGen m.Feeds before after) :
    rank after < rank before := by
  induction fed with
  | single fed => exact falls _ _ fed
  | tail _ fed ih => exact Nat.lt_trans (falls _ _ fed) ih

/-- A change does not reach its own name. -/
theorem payload_of_reaches
    (falls : ∀ before after, m.Feeds before after → rank after < rank before) {signal : Signal}
    {name : String} (reaches : m.Reaches signal name) :
    signal.payload m.hub (changeOf name) = [] := by
  obtain ⟨before, event, rfl, named, fed⟩ := reaches
  by_contra told
  obtain ⟨-, same⟩ := Signal.of_payload told
  obtain rfl := changeOf_injective (named.symm.trans same)
  exact Nat.lt_irrefl _ (rank_lt_of_feeds falls fed)

end Ranks

namespace Run

variable {first : State σ} {model : Ref .model} {m : Model σ} {rank : String → Nat}
  {visit : Signal → State σ → List (Moment σ)} {fire : Fire σ} {s t : State σ}

/-- What is due to a listener whose turn it is. -/
def dueTo (hub : Ref .hub) (signal : Signal) (listeners : List (Nat × Reaction)) :
    Option Nat → String → List Json := fun who name =>
  if who ∈ listeners.map (fun listener => some listener.1) then
    signal.payload hub (changeOf name) else []

theorem dueTo_of_silent {hub : Ref .hub} {signal : Signal} {name : String}
    (silent : signal.payload hub (changeOf name) = []) (listeners : List (Nat × Reaction))
    (who : Option Nat) : dueTo hub signal listeners who name = [] := by
  rw [dueTo, silent, ite_self]

theorem dueTo_cons (hub : Ref .hub) (signal : Signal) (listener : Nat × Reaction)
    (rest : List (Nat × Reaction)) (who : Option Nat) (name : String) :
    dueTo hub signal (listener :: rest) who name =
      if some listener.1 = who then signal.payload hub (changeOf name)
      else dueTo hub signal rest who name := by
  unfold dueTo
  by_cases turn : some listener.1 = who
  · rw [if_pos turn]
    exact if_pos (List.mem_cons.mpr (Or.inl turn.symm))
  · have same : who ∈ (listener :: rest).map (fun listener => some listener.1) ↔
        who ∈ rest.map fun listener => some listener.1 := by
      rw [List.map_cons, List.mem_cons]
      exact or_iff_right fun here => turn here.symm
    rw [if_neg turn, if_congr same rfl rfl]

theorem dueTo_of_new {listeners : List (Nat × Reaction)} {id : Nat}
    (new : id ∉ listeners.map (·.1)) (hub : Ref .hub) (signal : Signal) (name : String) :
    dueTo hub signal listeners (some id) name = [] := by
  refine if_neg fun among => new ?_
  obtain ⟨other, listed, same⟩ := List.mem_map.mp among
  exact List.mem_map.mpr ⟨other, listed, Option.some.inj same⟩

/-- An opening that has stored what moves the values of the model has it told. -/
theorem tells_errand {hub : Ref .hub} {other : Ref .model} {old row : Model σ}
    {changes : List (String × Json)} {opening : Run σ Errand} {settled : Errand} {u : State σ}
    {reach : Signal → String → Prop} (within : String → Prop) (due : String → List Json)
    (attests : Attests first model hub reach visit fire) (stands : first.Stands s)
    (opened : opening.result s = (.ok settled, u))
    (puts : Opening.Puts other row changes s settled u)
    (present : s.world.models.get? other = some old) (same : old.SameShape row)
    (near : ∀ signal ∈ settled.signals, ∀ name, reach signal name → within name)
    (dues : ∀ name, settled.signals.flatMap (Signal.payload hub (changeOf name)) = due name)
    (apart : ∀ name, within name → due name = [])
    (moved : ∀ name, u.world.origin model name = replay (s.world.origin model name) (due name))
    (ended : (errand fire opening).result s = (.ok (), t)) :
    Tells first model hub nothingDue (fun name => within name ∨ due name ≠ [])
      (errandMoments visit fire opening s) s t := by
  rw [errand, result_bind_ok opened, result_lastly, Prod.mk.injEq] at ended
  obtain ⟨done, rfl⟩ := ended
  have fired : (fireAll fire settled.signals).result u =
      (.ok (), ((fireAll fire settled.signals).result u).2) := Prod.ext done rfl
  have events : ∀ signal ∈ settled.signals, signal.IsEvent ∧ ∀ name, reach signal name →
      within name := by
    intro signal listed
    refine ⟨?_, near signal listed⟩
    rw [puts.signals] at listed
    obtain ⟨event, rfl, -⟩ := Signal.mem_announcements listed
    trivial
  have tells := tells_fireAll attests events (fun name inside signal listed => by
    have none := apart name inside
    rw [← dues name] at none
    exact List.flatMap_eq_nil_iff.mp none signal listed) (puts.stands stands present same) fired
  rw [errandMoments, opened]
  exact puts.tells stands present moved (tells.mono (fun _ => id) fun name _ _ => dues name)

/-! ## What listeners do -/

/-- A property that is updated tells its own changes, and what is told of them reaches what
it feeds.  Properties of other models tell nothing of this one. -/
theorem tells_refresh {other : Ref .model} {name : String} (scene : Scene model m rank first)
    (attests : Attests first model m.hub m.Reaches visit fire) (stands : first.Stands s)
    (ended : (errand fire (Opening.refresh other name)).result s = (.ok (), t)) :
    Tells first model m.hub nothingDue
      (fun after => other = model ∧ Relation.ReflTransGen m.Feeds name after)
      (errandMoments visit fire (Opening.refresh other name) s) s t := by
  rcases opened : (Opening.refresh other name).result s with ⟨halt | settled, u⟩
  · rw [errand, result_bind_error opened] at ended
    cases ended
  rcases Opening.puts_refresh opened with ⟨rfl, rfl⟩ | ⟨m', p, row, changes, present, found, puts, how⟩
  · rw [errand, result_bind_ok opened] at ended
    cases ended
    rw [errandMoments, opened]
    exact .of_silent stands (.refl _) _ fun _ none => absurd none List.not_mem_nil
  obtain rfl := Model.name_of_property? found
  have same : m'.SameShape row := by
    rcases how with ⟨rfl, -⟩ | ⟨value, adopted⟩
    · exact .refl _
    · rw [show row = (m'.adopt p value).1 from congrArg Prod.fst adopted]
      exact Model.sameShape_adopt p value m'
  obtain ⟨old, was, shape⟩ := stands.rows other m' present
  have hub : row.hub = old.hub := same.1.trans shape.1
  by_cases own : other = model
  · subst own
    cases scene.present.symm.trans was
    have mine : ∀ change ∈ changes, change.1 = p.name := by
      rcases how with ⟨-, rfl⟩ | ⟨value, adopted⟩
      · exact fun _ none => absurd none List.not_mem_nil
      · rw [show changes = (m'.adopt p value).2 from congrArg Prod.snd adopted]
        exact fun change listed => congrArg Prod.fst (Model.adopted_mem listed)
    have told : ∀ {after}, valuesOf after changes ≠ [] → after = p.name := by
      intro after told
      by_contra distinct
      exact told (valuesOf_eq_nil fun change listed is =>
        distinct (is.symm.trans (mine change listed)))
    refine (tells_errand (Relation.TransGen m.Feeds p.name) (fun name => valuesOf name changes)
      attests stands opened puts present same ?_ (fun name => ?_) (fun name fed => ?_)
      (fun name => ?_) ended).mono ?_ fun _ _ _ => rfl
    · rintro signal listed after ⟨before, event, rfl, named, fed⟩
      rw [puts.signals] at listed
      obtain ⟨_, same, all | ⟨change, among, here⟩⟩ := Signal.mem_announcements listed
      all_goals obtain rfl := (Signal.event.inj same).2
      · exact absurd (named.symm.trans all) (changeOf_ne_changeEvent before)
      · obtain rfl := changeOf_injective (named.symm.trans here)
        rwa [mine change among] at fed
    · rw [puts.signals, hub]
      exact Signal.payload_announcements changes name
    · by_contra nonempty
      rw [told nonempty] at fed
      exact Nat.lt_irrefl _ (rank_lt_of_feeds scene.falls fed)
    · have there : (s.world.models.get? other).isSome := by rw [present]; rfl
      rw [World.origin, World.origin, puts.models, World.get?_put_self there, present]
      rcases how with ⟨rfl, rfl⟩ | ⟨value, adopted⟩
      · rfl
      · rw [show row = (m'.adopt p value).1 from congrArg Prod.fst adopted,
          show changes = (m'.adopt p value).2 from congrArg Prod.snd adopted]
        exact Model.origin_adopt found value name
    · rintro after (fed | nonempty)
      · exact ⟨rfl, fed.to_reflTransGen⟩
      · rw [told nonempty]
        exact ⟨rfl, .refl⟩
  · have elsewhere : row.hub ≠ m.hub := fun here =>
      own (scene.alone other model old m was scene.present (hub.symm.trans here))
    refine (tells_errand (fun _ => False) (fun _ => []) attests stands opened puts present same ?_
      (fun name => ?_) (fun _ => False.elim) (fun name => ?_) ended).mono ?_ fun _ _ _ => rfl
    · rintro signal listed after ⟨before, event, rfl, -, -⟩
      rw [puts.signals] at listed
      obtain ⟨_, same, -⟩ := Signal.mem_announcements listed
      exact elsewhere (Signal.event.inj same).1.symm
    · rw [puts.signals]
      refine List.flatMap_eq_nil_iff.mpr fun signal listed => ?_
      obtain ⟨event, rfl, -⟩ := Signal.mem_announcements listed
      exact Signal.payload_of_other elsewhere _
    · rw [World.origin, World.origin, puts.models, World.get?_put_ne (Ne.symm own)]
      rfl
    · rintro after (none | none)
      · exact none.elim
      · exact absurd rfl none

/-- Whoever is called with an event tells what it reaches, and nothing else. -/
theorem tells_react {hub : Ref .hub} {event : Event} {id : Nat} {reaction : Reaction}
    (scene : Scene model m rank first)
    (attests : Attests first model m.hub m.Reaches visit fire) (stands : first.Stands s)
    (registered : Registered first.world.hubs ⟨hub, id, event.name⟩ reaction)
    (ended : (react fire event reaction).result s = (.ok (), t)) :
    Tells first model m.hub nothingDue (m.Reaches (.event hub event))
      (reactMoments visit fire event reaction s) s t := by
  cases reaction with
  | client number =>
      rw [react, result_bind_ok (result_get s)] at ended
      rw [reactMoments]
      rcases found : s.callbacks[number]? with _ | callback
      · rw [found] at ended
        cases ended
        exact .of_silent stands (.refl _) _ fun _ none => absurd none List.not_mem_nil
      · rw [found] at ended
        have records := scene.records _ number registered callback (stands.callbacks ▸ found) event
        obtain ⟨alike, silent⟩ := exec_records visit records ended
        exact .of_silent stands alike _ silent
  | refresh other name =>
      have opens : (Reaction.refresh other name).opening event =
          some (Opening.refresh other name : Run σ Errand) := rfl
      rw [react_opening fire opens] at ended
      refine (tells_refresh scene attests stands ended).mono ?_ fun _ _ _ => rfl
      rintro after ⟨rfl, fed⟩
      obtain ⟨before, here, named, feeds⟩ := scene.fed _ name registered
      exact ⟨before, event, congrArg (Signal.event · event) here, named, .head' feeds fed⟩
  | reapply binding slot =>
      have opened : (do reapply binding slot event.name; pure Errand.nothing : Run σ Errand).result s =
          (.ok .nothing, t) := result_bind_ok ended
      have moments : reactMoments visit fire event (.reapply binding slot) s = [] := by
        show errandMoments visit fire _ s = []
        rw [errandMoments, opened]
        rfl
      rw [moments]
      exact .of_silent stands (reapply_alike ended) _ fun _ none => absurd none List.not_mem_nil
  | push binding slot => exact absurd registered (scene.unpushed _ binding slot)

/-- Each listener is told the event in its turn. -/
theorem tells_deliver {hub : Ref .hub} {event : Event} {began : Nat}
    {listeners : List (Nat × Reaction)} (scene : Scene model m rank first)
    (attests : Attests first model m.hub m.Reaches visit fire) (stands : first.Stands s)
    (distinct : (listeners.map (·.1)).Nodup)
    (registered : ∀ listener ∈ listeners,
      Registered first.world.hubs ⟨hub, listener.1, event.name⟩ listener.2)
    (ended : (deliver fire (.event hub event) began listeners).result s = (.ok (), t)) :
    Tells first model m.hub (dueTo m.hub (.event hub event) listeners)
      (m.Reaches (.event hub event))
      (deliverMoments visit fire (.event hub event) began listeners s) s t := by
  induction listeners generalizing s with
  | nil =>
      cases ended
      exact .of_silent stands (.refl _) _ fun _ none => absurd none List.not_mem_nil
  | cons listener rest ih =>
      obtain ⟨id, reaction⟩ := listener
      obtain ⟨new, distinct⟩ := List.nodup_cons.mp distinct
      have here := registered (id, reaction) List.mem_cons_self
      have still : isRegistered s.world (.event hub event) id = true := by
        have listed : (id, reaction) ∈ listeners s.world (.event hub event) := by
          rw [Follower.mem_listeners_event, stands.hubs]
          exact here
        exact Follower.isRegistered_of_mem_listeners listed
      rw [deliver, result_world_bind] at ended
      simp only [still, if_true] at ended
      rw [result_alter_bind] at ended
      obtain ⟨⟨⟩, u, called, later⟩ := bind_ok ended
      rw [deliverMoments, if_pos still]
      have calls : Tells first model m.hub
          (fun who name => if some id = who then
            Signal.payload m.hub (changeOf name) (.event hub event) else [])
          (m.Reaches (.event hub event))
          [⟨.calling (.event hub event) began id reaction,
            s.alter (.happen (.called began id))⟩] s (s.alter (.happen (.called began id))) :=
        .of_alike stands (.happen _ s) _ fun name who => payloads_calling _ _ _ _ _ _
      have reacts := tells_react scene attests calls.stands here called
      have rests := ih reacts.stands distinct
        (fun other among => registered other (List.mem_cons_of_mem _ among)) later
      have silent : ∀ name, m.Reaches (.event hub event) name → ∀ who,
          dueTo m.hub (.event hub event) rest who name = [] := fun name reaches who =>
        dueTo_of_silent (payload_of_reaches scene.falls reaches) rest who
      have all := calls.append (reacts.append rests silent) fun name reaches who => by
        rw [silent name reaches who]
        rfl
      simp only [eventOf] at called
      simp only [eventOf, called]
      refine all.mono (fun _ reaches => reaches) fun name who _ => ?_
      rw [dueTo_cons]
      by_cases turn : some id = who
      · subst turn
        rw [if_pos rfl, if_pos rfl, dueTo_of_new new, List.append_nil, List.append_nil]
      · rw [if_neg turn, if_neg turn, List.nil_append, List.nil_append]

/-- Whatever dispatches succeed, each of them tells its event. -/
theorem attests_dispatch (scene : Scene model m rank first) (depth : Nat) :
    Attests first model m.hub m.Reaches (dispatchMoments depth) (dispatch depth) := by
  induction depth with
  | zero =>
      intro signal _ s t _ ended
      cases ended
  | succ depth ih =>
      rintro (⟨hub, event⟩ | _) isEvent s t stands ended
      swap
      · exact isEvent.elim
      rw [result_dispatch] at ended
      have dispatches : Tells first model m.hub
          (fun who name => if none = who then
            Signal.payload m.hub (changeOf name) (.event hub event) else [])
          (m.Reaches (.event hub event)) [⟨.dispatching (.event hub event), s⟩] s
          (s.alter (.happen (.dispatched (.event hub event)))) :=
        .of_alike stands (.happen _ s) _ fun name who => payloads_dispatching _ _ _
      have registered : ∀ listener ∈ listeners s.world (.event hub event),
          Registered first.world.hubs ⟨hub, listener.1, event.name⟩ listener.2 := by
        rintro ⟨id, reaction⟩ listed
        rw [← stands.hubs]
        exact Follower.mem_listeners_event.mp listed
      have distinct : ((listeners s.world (.event hub event)).map (·.1)).Nodup := by
        rw [listeners]
        split
        · rename_i h present
          rw [stands.hubs] at present
          have ascending := (scene.ordered hub h present).ascending
          rw [List.map_map]
          exact (List.pairwise_map.mpr ((ascending.filter _).imp Nat.ne_of_lt))
        · exact List.nodup_nil
      have delivers := tells_deliver scene ih dispatches.stands distinct registered ended
      have silent : ∀ name, m.Reaches (.event hub event) name → ∀ who,
          dueTo m.hub (.event hub event) (listeners s.world (.event hub event)) who name = [] :=
        fun name reaches who => dueTo_of_silent (payload_of_reaches scene.falls reaches) _ who
      rw [dispatchMoments]
      refine (dispatches.append delivers silent).mono (fun _ => id) fun name who listens => ?_
      -- a listener for changes of the name is called if that is what is dispatched
      by_cases told : Signal.payload m.hub (changeOf name) (.event hub event) = []
      · rw [dueTo_of_silent told, told]
        simp
      obtain ⟨rfl, named⟩ := Signal.of_payload told
      rcases listens with rfl | ⟨id, reaction, rfl, there⟩
      · simp [dueTo]
      · have among : (id, reaction) ∈ listeners s.world (.event m.hub event) := by
          rw [Follower.mem_listeners_event, named, stands.hubs]
          exact there
        have turn : some id ∈ (listeners s.world (.event m.hub event)).map
            (fun listener => some listener.1) := List.mem_map.mpr ⟨_, among, rfl⟩
        simp [dueTo, turn]

end Run

end LiveBinding
