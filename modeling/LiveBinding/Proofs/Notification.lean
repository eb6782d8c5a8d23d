/-
# LiveBinding.Proofs.Notification -- a write tells what it changed

A write to a model without computed properties stores everything first and then tells of it:
of each entry that was new or told of another value, in the order in which they were written,
and last that there were changes, if there were any (`Attributes.changes`,
`Attributes.announced`).  Everyone who listens hears it with all of it stored, and to write
the same once more tells nothing and changes nothing (`Run.write_notifies`).

This takes listeners that only take note of what they hear (`Program.TakesNote`).
-/
import LiveBinding.Proofs.Follower.Dispatch
import LiveBinding.Proofs.Model.Data
import LiveBinding.Proofs.Routing
import LiveBinding.Proofs.Run.News
import LiveBinding.Proofs.Run.Opening
import Mathlib

namespace LiveBinding

set_option autoImplicit false

variable {σ : Type}

/-! ## What a write changes -/

namespace Attributes

variable {name : String} {value : Json} {store pending written : Attributes}

/-- The entries whose names the store has not, or with a value that is not the same. -/
def changes (store pending : Attributes) : Attributes :=
  pending.filter fun entry => (Fields.get? entry.1 store).all fun old => !Json.same old entry.2

/-- The values that are written in the places that their names have, and the others at the
end. -/
def merge (store written : Attributes) : Attributes :=
  (store.map fun entry => (entry.1, (Fields.get? entry.1 written).getD entry.2)) ++
    written.filter fun entry => entry.1 ∉ Fields.keys store

/-- The events that tell of changes: one for each, and one for all if there are any. -/
def announced (changes : Attributes) : List Event :=
  changes.map (fun change => ⟨changeOf change.1, change.2⟩) ++
    if changes.isEmpty then [] else [⟨changeEvent, .null⟩]

theorem changes_cons (entry : String × Json) (rest : Attributes) :
    store.changes (entry :: rest) =
      if holds entry.1 entry.2 store then store.changes rest else entry :: store.changes rest := by
  have held : ((Fields.get? entry.1 store).all fun old => !Json.same old entry.2) =
      !holds entry.1 entry.2 store := by
    rw [holds]
    cases Fields.get? entry.1 store <;> rfl
  rw [changes, List.filter_cons, held]
  cases holds entry.1 entry.2 store <;> rfl

/-- Setting a name does not bear on whether others change. -/
theorem changes_set (unwritten : name ∉ Fields.keys pending) :
    changes (Fields.set name value store) pending = store.changes pending := by
  refine List.filter_congr fun entry listed => ?_
  have other : entry.1 ≠ name := fun same => unwritten (same ▸ List.mem_map_of_mem listed)
  rw [Fields.get?_set_ne _ _ other]

theorem keys_changes_subset : Fields.keys (store.changes pending) ⊆ Fields.keys pending :=
  (List.filter_sublist.map _).subset

theorem get?_eq_none (unlisted : name ∉ Fields.keys store) : Fields.get? name store = none := by
  rw [← Fields.contains_iff_mem_keys, Fields.contains] at unlisted
  simpa using unlisted

/-- Setting a name and merging what is written besides. -/
theorem merge_set (once : (Fields.keys store).Nodup) (unwritten : name ∉ Fields.keys written) :
    merge (Fields.set name value store) written = store.merge ((name, value) :: written) := by
  by_cases listed : name ∈ Fields.keys store
  · have names : Fields.keys (Fields.set name value store) = Fields.keys store :=
      Fields.keys_set_of_mem value store listed
    rw [merge, merge, names, Fields.set_of_mem value once listed, List.map_map, List.filter_cons_of_neg]
    · congr 1
      refine List.map_congr_left fun entry _ => ?_
      simp only [Function.comp_apply, Fields.get?]
      by_cases same : name = entry.1
      · rw [if_pos same.symm, if_pos same, ← same, get?_eq_none unwritten]
        rfl
      · rw [if_neg (Ne.symm same), if_neg same]
    · simpa using listed
  · have others : ∀ entry ∈ store, name ≠ entry.1 := fun entry there same =>
      listed (List.mem_map.mpr ⟨entry, there, same.symm⟩)
    have apart : ∀ entry ∈ written, entry.1 ≠ name := fun entry there same =>
      unwritten (List.mem_map.mpr ⟨entry, there, same⟩)
    rw [merge, merge, Fields.set_of_not_mem value listed, List.filter_cons_of_pos (by simpa using listed),
      List.map_append, List.append_assoc]
    congr 1
    · refine List.map_congr_left fun entry there => ?_
      rw [Fields.get?, if_neg (others entry there)]
    · rw [List.map_singleton, get?_eq_none unwritten, Option.getD_none, List.singleton_append]
      congr 1
      refine List.filter_congr fun entry there => ?_
      refine decide_eq_decide.mpr (not_congr ?_)
      simp [Fields.keys, apart entry there]

/-- What a write reports is what it changes, and what it leaves has that merged in. -/
theorem apply_eq (once : (Fields.keys store).Nodup) (onceWritten : (Fields.keys pending).Nodup) :
    store.apply pending = (store.merge (store.changes pending), store.changes pending) := by
  induction pending generalizing store with
  | nil => simp [apply, changes, merge]
  | cons entry rest ih =>
      obtain ⟨name, value⟩ := entry
      obtain ⟨unrepeated, onceRest⟩ := List.nodup_cons.mp onceWritten
      rw [apply, changes_cons]
      split
      · exact ih once onceRest
      · have unwritten : name ∉ Fields.keys (store.changes rest) := fun listed =>
          unrepeated (keys_changes_subset listed)
        rw [ih (Fields.nodup_keys_set value once) onceRest, changes_set unrepeated, merge_set once unwritten]

/-- To write what is held already changes nothing. -/
theorem apply_of_held (held : ∀ entry ∈ pending, holds entry.1 entry.2 store = true) :
    store.apply pending = (store, []) := by
  induction pending with
  | nil => rfl
  | cons entry rest ih =>
      rw [apply, if_pos (held entry List.mem_cons_self)]
      exact ih fun entry later => held entry (List.mem_cons_of_mem _ later)

/-- What is written is held, if it is data. -/
theorem holds_apply_of_data (once : (Fields.keys pending).Nodup) (data : pending.AreData) :
    ∀ entry ∈ pending, holds entry.1 entry.2 (store.apply pending).1 = true := by
  intro entry listed
  have there := get?_apply once store entry.1
  rw [Fields.get?_of_mem once listed] at there
  by_cases held : holds entry.1 entry.2 store = true
  · simp only [held, if_true] at there
    rw [holds_congr there]
    exact held
  · simp only [held, Bool.false_eq_true, if_false] at there
    rw [holds, there]
    exact (data entry listed).refl

end Attributes

def Model.written (m : Model σ) (attributes : Attributes) : Model σ :=
  { m with store := m.store.merge (m.store.changes attributes) }

/-! ## Those who take note -/

/-- The program looks on, reports and changes the client's own state, and does not fail. -/
inductive Program.TakesNote : Program σ → Prop
  | done : TakesNote .done
  | report (message : Message) {next : (Call.report (σ := σ) message).Answer → Program σ}
      (rest : TakesNote (next ())) : TakesNote (.call (.report message) next)
  | look {next : World σ → σ → Program σ} (rest : ∀ world client, TakesNote (next world client)) :
      TakesNote (.look next)
  | change (f : σ → σ) {next : Program σ} (rest : TakesNote next) : TakesNote (.change f next)

theorem Program.TakesNote.records {program : Program σ} (takes : program.TakesNote) :
    program.Records := by
  induction takes with
  | done => exact .done
  | report message _ ih => exact .report message ih
  | look _ ih => exact .look ih
  | change f _ ih => exact .change f ih

/-- Everyone who listens to the hub is a client's callback that takes note. -/
def State.IsNotedOn (s : State σ) (hub : Ref .hub) : Prop :=
  ∀ sub reaction, sub.hub = hub → Registered s.world.hubs sub reaction →
    ∃ number, reaction = .client number ∧
      ∀ callback, s.callbacks[number]? = some callback → ∀ event, (callback event).TakesNote

theorem State.IsNotedOn.of_alike {s t : State σ} {hub : Ref .hub} (noted : s.IsNotedOn hub)
    (alike : s.Alike t) : t.IsNotedOn hub := by
  intro sub reaction on registered
  rw [alike.hubs] at registered
  rw [alike.callbacks]
  exact noted sub reaction on registered

theorem Run.listeners_of_alike {s t : State σ} {hub : Ref .hub} {event : Event} (alike : s.Alike t) :
    listeners t.world (.event hub event) = listeners s.world (.event hub event) := by
  simp only [listeners, alike.hubs]

/-- An event as it is told: once for everybody, as it is dispatched, and then to each who
listens, in order. -/
def World.notices (w : World σ) (hub : Ref .hub) (event : Event) :
    List (Option Nat × Ref .hub × Event) :=
  (none, hub, event) :: (Run.listeners w (.event hub event)).map fun l => (some l.1, hub, event)

/-- The news among the moments is what was told, and at none of it anything has changed that
models are announced through. -/
structure Notified (s : State σ) (ms : List (Moment σ))
    (told : List (Option Nat × Ref .hub × Event)) : Prop where
  told : ms.filterMap (·.point.news) = told
  still : ∀ m ∈ ms, m.point.news ≠ none → s.Alike m.state

namespace Notified

variable {s t : State σ} {ms ms' : List (Moment σ)} {told told' : List (Option Nat × Ref .hub × Event)}

theorem silent (none_ : ∀ m ∈ ms, m.point.news = none) : Notified s ms [] :=
  ⟨List.filterMap_eq_nil_iff.mpr none_, fun m listed some_ => absurd (none_ m listed) some_⟩

theorem append (first : Notified s ms told) (then_ : Notified s ms' told') :
    Notified s (ms ++ ms') (told ++ told') where
  told := by rw [List.filterMap_append, first.told, then_.told]
  still m listed := (List.mem_append.mp listed).elim (first.still m) (then_.still m)

theorem single {m : Moment σ} {news : Option Nat × Ref .hub × Event}
    (told : m.point.news = some news) (still : s.Alike m.state) : Notified s [m] [news] where
  told := by rw [List.filterMap_cons, told, List.filterMap_nil]
  still m' listed _ := List.mem_singleton.mp listed ▸ still

theorem of_alike (alike : s.Alike t) (notified : Notified t ms told) : Notified s ms told :=
  ⟨notified.told, fun m listed some_ => alike.trans (notified.still m listed some_)⟩

end Notified

/-! ## Telling those who take note -/

namespace Run

variable {visit : Signal → State σ → List (Moment σ)} {fire : Fire σ} {s : State σ}
  {hub : Ref .hub} {event : Event}

theorem exec_takesNote (fire : Fire σ) {program : Program σ} (takes : program.TakesNote)
    (s : State σ) : ∃ t, (exec fire program).result s = (.ok (), t) := by
  induction takes generalizing s with
  | done => exact ⟨s, rfl⟩
  | report message _ ih => exact ih (s.alter (.report message))
  | look _ ih => exact ih s.world s.client s
  | change f _ ih => exact ih { s with client := f s.client }

/-- A callback that takes note brings no news. -/
theorem react_notified (visit : Signal → State σ → List (Moment σ)) (fire : Fire σ)
    (event : Event) {number : Nat} (takes : ∀ callback, s.callbacks[number]? = some callback →
      ∀ event, (callback event).TakesNote) :
    ∃ t, (react fire event (.client number)).result s = (.ok (), t) ∧ s.Alike t ∧
      Notified s (reactMoments visit fire event (.client number) s) [] := by
  rw [react, result_bind_ok (result_get s), reactMoments]
  cases known : s.callbacks[number]? with
  | none => exact ⟨s, rfl, .refl s, .silent fun _ listed => absurd listed List.not_mem_nil⟩
  | some callback =>
      have note := takes callback known event
      obtain ⟨t, ended⟩ := exec_takesNote fire note s
      obtain ⟨alike, silent⟩ := exec_records visit note.records ended
      exact ⟨t, ended, alike, .silent silent⟩

/-- Calling those who listen, each in turn. -/
theorem deliver_notified (visit : Signal → State σ → List (Moment σ)) (fire : Fire σ)
    (event : Event) (began : Nat) {listed : List (Nat × Reaction)} (noted : s.IsNotedOn hub)
    (among : ∀ l ∈ listed, l ∈ listeners s.world (.event hub event)) :
    ∃ t, (deliver fire (.event hub event) began listed).result s = (.ok (), t) ∧ s.Alike t ∧
      Notified s (deliverMoments visit fire (.event hub event) began listed s)
        (listed.map fun l => (some l.1, hub, event)) := by
  induction listed generalizing s with
  | nil => exact ⟨s, rfl, .refl s, .silent fun _ listed => absurd listed List.not_mem_nil⟩
  | cons entry rest ih =>
      obtain ⟨id, reaction⟩ := entry
      have here := among _ List.mem_cons_self
      obtain ⟨number, rfl, takes⟩ := noted _ _ rfl (Follower.mem_listeners_event.mp here)
      have called := State.Alike.happen (.called began id) s
      obtain ⟨t, reacted, alike, silent⟩ := react_notified visit fire event
        (s := s.alter (.happen (.called began id))) takes
      have onward := called.trans alike
      obtain ⟨v, delivered, alike', later⟩ := ih (noted.of_alike onward) fun l listed => by
        rw [listeners_of_alike onward]
        exact among l (List.mem_cons_of_mem _ listed)
      have registered := Follower.isRegistered_of_mem_listeners here
      refine ⟨v, ?_, onward.trans alike', ?_⟩
      · rw [deliver, result_world_bind, if_pos registered, result_alter_bind]
        exact (result_bind_ok reacted).trans delivered
      · rw [deliverMoments, if_pos registered]
        simp only [eventOf, reacted]
        exact (Notified.single rfl called).append
          ((silent.of_alike called).append (later.of_alike onward))

/-- Dispatching an event tells everybody of it, and then each who listens. -/
theorem dispatch_notified (depth : Nat) (event : Event) (noted : s.IsNotedOn hub) :
    ∃ t, (dispatch (depth + 1) (.event hub event)).result s = (.ok (), t) ∧ s.Alike t ∧
      Notified s (dispatchMoments (depth + 1) (.event hub event) s) (s.world.notices hub event) := by
  have begun := State.Alike.happen (.dispatched (.event hub event)) s
  obtain ⟨t, delivered, alike, told⟩ := deliver_notified (dispatchMoments depth)
    (dispatch depth) event s.world.journal.length (noted.of_alike begun) fun l listed => by
      rw [listeners_of_alike begun]
      exact listed
  refine ⟨t, ?_, begun.trans alike, ?_⟩
  · rw [dispatch, result_world_bind, result_alter_bind]
    exact delivered
  · rw [dispatchMoments]
    exact (Notified.single rfl (.refl s)).append (told.of_alike begun)

/-- Dispatching events, one after another. -/
theorem fireAll_notified (depth : Nat) (events : List Event) (noted : s.IsNotedOn hub) :
    ∃ t, (fireAll (dispatch (depth + 1)) (events.map (.event hub))).result s = (.ok (), t) ∧
      s.Alike t ∧
      Notified s (fireMoments (dispatchMoments (depth + 1)) (dispatch (depth + 1))
        (events.map (.event hub)) s) (events.flatMap (s.world.notices hub)) := by
  induction events generalizing s with
  | nil => exact ⟨s, rfl, .refl s, .silent fun _ listed => absurd listed List.not_mem_nil⟩
  | cons event rest ih =>
      obtain ⟨t, fired, alike, told⟩ := dispatch_notified depth event noted
      obtain ⟨v, later, alike', toldLater⟩ := ih (noted.of_alike alike)
      have same : t.world.notices hub = s.world.notices hub := by
        funext event
        rw [World.notices, World.notices, listeners_of_alike alike]
      refine ⟨v, (result_bind_ok fired).trans later, alike.trans alike', ?_⟩
      rw [List.map_cons, fireMoments, fired, List.flatMap_cons]
      rw [same] at toldLater
      exact told.append (toldLater.of_alike alike)

/-! ## Writing -/

variable {model : Ref .model} {m : Model σ} {attributes : Attributes} {depth : Nat}

theorem announcements_eq (hub : Ref .hub) (changes : Attributes) :
    Opening.announcements hub changes = changes.announced.map (.event hub) := by
  rw [Opening.announcements, Attributes.announced, List.map_append, List.map_map]
  cases changes <;> rfl

/-- Where nothing is computed, a write stores what is written and has it announced. -/
theorem opening_write_plain (present : s.world.models.get? model = some m)
    (plain : m.properties = []) (once : (Fields.keys attributes).Nodup) :
    (Opening.write model attributes).result s =
      (.ok ⟨(Attributes.announced (m.store.apply attributes).2).map (.event m.hub),
          [.release (.model model)]⟩,
        s.alter fun w => (w.hold (.model model)).put model
          { m with store := (m.store.apply attributes).1 }) := by
  have contribute : ∀ (entries : Attributes) (client : σ),
      m.Contribute client entries (entries.map ([·])) client := by
    intro entries client
    induction entries with
    | nil => exact .nothing client
    | cons entry rest ih =>
        refine .next ?_ ih
        rw [Model.contribution, Model.property?, plain]
        rfl
  have holding : (s.alter (.hold (.model model))).world.models.get? model = some m := present
  have routed := result_route holding (contribute attributes s.client)
  have flat : (attributes.map ([·])).flatten = attributes := by
    rw [← List.flatMap_def, List.flatMap_singleton']
  rw [flat, Fields.ofEntries_of_distinct once] at routed
  have stored := Opening.result_writeStore holding attributes
  rw [announcements_eq] at stored
  have opened : ((do Opening.writeStore model (← route model attributes [])) : Run σ Errand).result
      (s.alter (.hold (.model model))) = _ :=
    (result_bind_ok routed).trans stored
  rw [Opening.write, Opening.result_keeping, opened]
  rfl

/-- Who is still kept is released as it was. -/
theorem release_alike {u v : State σ} (alike : u.Alike v)
    (held : u.world.held = .model model :: s.world.held) (views : u.world.views = s.world.views)
    (kept : s.world.keepsModel model = true) :
    v.world.release (.model model) = { v.world with held := s.world.held } := by
  refine World.release_kept (alike.held.trans held) ?_
  rw [← kept, World.keepsModel, World.keepsModel, alike.views.trans views]

/-- A write that ends well is announced by what its opening settles, and by nothing else. -/
theorem moments_write {t u : State σ} {settled : Errand}
    (opened : (Opening.write model attributes).result s = (.ok settled, u))
    (ended : (write (dispatch depth) model attributes).result s = (.ok (), t)) :
    moments depth (.call (.write model attributes) fun _ => .done) s =
      [⟨.making (.write model attributes), s⟩] ++
        fireMoments (dispatchMoments depth) (dispatch depth) settled.signals u ++
        [⟨.made (.write model attributes) (.ok ()), t⟩] := by
  have performed : (perform (dispatch depth) (.write model attributes)).result s =
      (.ok (.ok ()), t) := by
    have attempted := result_attempt (write (dispatch depth) model attributes) s
    rw [ended] at attempted
    exact attempted
  rw [moments_call performed, Call.opening, openingMoments, errandMoments, opened]

theorem notified_of_moments_write {r t u : State σ} {ms : List (Moment σ)}
    {told : List (Option Nat × Ref .hub × Event)} (notified : Notified r ms told) :
    Notified r ([⟨.making (.write model attributes), u⟩] ++ ms ++
      [⟨.made (.write model attributes) (.ok ()), t⟩]) told := by
  have making : Notified r [⟨.making (.write model attributes), u⟩] [] :=
    .silent fun m listed => by rw [List.mem_singleton.mp listed]; rfl
  have made : Notified r [⟨.made (.write model attributes) (.ok ()), t⟩] [] :=
    .silent fun m listed => by rw [List.mem_singleton.mp listed]; rfl
  simpa using (making.append notified).append made

/-- Where nothing is computed and everyone takes note, a write ends well, and it tells of its
changes when all of them are stored. -/
theorem write_plain (depth : Nat) (present : s.world.models.get? model = some m)
    (plain : m.properties = []) (kept : s.world.keepsModel model = true)
    (noted : s.IsNotedOn m.hub) (once : (Fields.keys m.store).Nodup)
    (onceWritten : (Fields.keys attributes).Nodup) :
    ∃ t, (write (dispatch (depth + 1)) model attributes).result s = (.ok (), t) ∧
      (s.alter (World.put model (m.written attributes))).Alike t ∧
      Notified (s.alter fun w => (w.hold (.model model)).put model (m.written attributes))
        (moments (depth + 1) (.call (.write model attributes) fun _ => .done) s)
        ((m.store.changes attributes).announced.flatMap (s.world.notices m.hub)) := by
  have opened : (Opening.write model attributes).result s =
      (.ok ⟨(m.store.changes attributes).announced.map (.event m.hub), [.release (.model model)]⟩,
        s.alter fun w => (w.hold (.model model)).put model (m.written attributes)) := by
    have stored := opening_write_plain present plain onceWritten
    rw [Attributes.apply_eq once onceWritten] at stored
    exact stored
  have stored : (s.alter fun w =>
      (w.hold (.model model)).put model (m.written attributes)).IsNotedOn m.hub := noted
  obtain ⟨v, fired, alike, told⟩ :=
    fireAll_notified depth (m.store.changes attributes).announced stored
  have released := release_alike (s := s) alike rfl rfl kept
  have ended : (write (dispatch (depth + 1)) model attributes).result s =
      (.ok (), v.alter (.release (.model model))) := by
    rw [write_eq, errand, result_bind_ok opened, result_lastly, fired]
    rfl
  refine ⟨_, ended, ?_, ?_⟩
  · refine ⟨?_, ?_, ?_, ?_, ?_⟩ <;> rw [State.alter] <;> simp only [released]
    · exact alike.hubs
    · exact alike.models
    · exact alike.views
    · rfl
    · exact alike.callbacks
  · rw [moments_write opened ended]
    exact notified_of_moments_write told

/-- To write what is held already tells nothing and changes nothing. -/
theorem write_held (depth : Nat) (present : s.world.models.get? model = some m)
    (plain : m.properties = []) (kept : s.world.keepsModel model = true)
    (onceWritten : (Fields.keys attributes).Nodup)
    (held : ∀ entry ∈ attributes, m.store.holds entry.1 entry.2 = true) :
    (write (dispatch depth) model attributes).result s = (.ok (), s) ∧
      (moments depth (.call (.write model attributes) fun _ => .done) s).filterMap (·.point.news) =
        [] := by
  have same : (s.world.hold (.model model)).put model m = s.world.hold (.model model) := by
    have row := World.update_eq_put (w := s.world.hold (.model model)) present id
    rw [Table.update_id] at row
    exact row.symm
  have opened : (Opening.write model attributes).result s =
      (.ok ⟨[], [.release (.model model)]⟩, s.alter (.hold (.model model))) := by
    have stored := opening_write_plain present plain onceWritten
    rw [Attributes.apply_of_held held] at stored
    have altered : (s.alter fun w => (w.hold (.model model)).put model m) =
        s.alter (.hold (.model model)) := State.alter_congr same
    exact stored.trans (congrArg (Prod.mk _) altered)
  have ended : (write (dispatch depth) model attributes).result s = (.ok (), s) := by
    have released : (s.world.hold (.model model)).release (.model model) = s.world :=
      World.release_kept rfl kept
    rw [write_eq, errand, result_bind_ok opened, result_lastly]
    show (_, (s.alter (.hold (.model model))).alter (.release (.model model))) = _
    simp only [State.alter, released]
    rfl
  refine ⟨ended, ?_⟩
  rw [moments_write opened ended]
  rfl

/-- A write notifies exactly of what it changes, after all of it is stored.

The store is the old one with the changes merged in.  Of each change its own event tells, with
the new value, and then one event of all, if there is any; each is told to whoever listens, in
order, and nothing else is told.  Whoever is told finds all of it stored.  The same write
once more tells nothing and changes nothing. -/
theorem write_notifies (depth : Nat) (present : s.world.models.get? model = some m)
    (plain : m.properties = []) (kept : s.world.keepsModel model = true)
    (noted : s.IsNotedOn m.hub) (once : (Fields.keys m.store).Nodup)
    (onceWritten : (Fields.keys attributes).Nodup) (data : attributes.AreData) :
    ∃ t, (write (dispatch (depth + 1)) model attributes).result s = (.ok (), t) ∧
      t.world.models.get? model = some (m.written attributes) ∧
      (moments (depth + 1) (.call (.write model attributes) fun _ => .done) s).filterMap
          (·.point.news) =
        (m.store.changes attributes).announced.flatMap (s.world.notices m.hub) ∧
      (∀ moment ∈ moments (depth + 1) (.call (.write model attributes) fun _ => .done) s,
        moment.point.news ≠ none →
          moment.state.world.models.get? model = some (m.written attributes)) ∧
      (write (dispatch (depth + 1)) model attributes).result t = (.ok (), t) ∧
      (moments (depth + 1) (.call (.write model attributes) fun _ => .done) t).filterMap
        (·.point.news) = [] := by
  have there : (s.world.models.get? model).isSome := by rw [present]; rfl
  obtain ⟨t, ended, alike, notified⟩ :=
    write_plain depth present plain kept noted once onceWritten
  have stored : t.world.models.get? model = some (m.written attributes) := by
    rw [alike.models]
    exact World.get?_put_self there
  have held : ∀ entry ∈ attributes, (m.written attributes).store.holds entry.1 entry.2 = true := by
    have applied : (m.store.apply attributes).1 = (m.written attributes).store :=
      congrArg Prod.fst (Attributes.apply_eq once onceWritten)
    exact applied ▸ Attributes.holds_apply_of_data onceWritten data
  have keptThen : t.world.keepsModel model = true := by
    rw [← kept, World.keepsModel, World.keepsModel, alike.held, alike.views]
    rfl
  obtain ⟨again, silent⟩ := write_held (depth + 1) stored plain keptThen onceWritten held
  refine ⟨t, ended, stored, notified.told, fun moment listed news => ?_, again, silent⟩
  rw [(notified.still moment listed news).models]
  exact World.get?_put_self there

end Run

namespace Sample

/-- A client that notes the new values of a title, and what a note reads as whenever something
has changed. -/
def reader : Program (List Json) :=
  .call (.openModel [("title", .text "Dr"), ("tags", .object [("a", .null), ("b", .bool true)])])
    fun (_ : Ref .model) =>
    .subscribe ⟨0⟩ (changeOf "title") (fun told => .change (· ++ [told.value]) .done) fun _ =>
    .subscribe ⟨0⟩ changeEvent
      (fun _ => .look fun world _ => .change (· ++ [world.read ⟨0⟩ "note"]) .done) fun _ => .done

def subscribed : State (List Json) :=
  ((Run.run 1 reader).result ⟨.empty, [], []⟩).2

def titled : Model (List Json) :=
  ⟨⟨0⟩, [("title", .text "Dr"), ("tags", .object [("a", .null), ("b", .bool true)])], []⟩

/-- Tags that are the same as data, a note that says nothing, and another title. -/
def promotion : Attributes :=
  [("tags", .object [("b", .bool true), ("a", .null)]), ("note", .null), ("title", .text "Prof")]

theorem subscribed_titled : subscribed.world.models.get? ⟨0⟩ = some titled := by cbv

theorem subscribed_isNotedOn : subscribed.IsNotedOn ⟨0⟩ := by
  rintro ⟨_, id, event⟩ reaction rfl ⟨hub, present, listed⟩
  have only : subscribed.world.hubs.get? ⟨0⟩ =
      some ⟨2, [⟨0, changeOf "title", .client 0⟩, ⟨1, changeEvent, .client 1⟩]⟩ := by cbv
  have callbacks : subscribed.callbacks = [fun told => .change (· ++ [told.value]) .done,
      fun _ => .look fun world _ => .change (· ++ [world.read ⟨0⟩ "note"]) .done] := by cbv
  rw [only] at present
  cases present
  rw [callbacks]
  rcases List.mem_pair.mp listed with same | same <;> cases same
  · refine ⟨0, rfl, fun callback known event => ?_⟩
    cases known
    exact .change _ .done
  · refine ⟨1, rfl, fun callback known event => ?_⟩
    cases known
    exact .look fun _ _ => .change _ .done

theorem promotion_areData : promotion.AreData := by
  intro entry listed
  simp only [promotion, List.mem_cons, List.not_mem_nil, or_false] at listed
  rcases listed with rfl | rfl | rfl
  · refine .object (by decide) fun entry listed => ?_
    rcases List.mem_pair.mp listed with rfl | rfl
    · exact .scalar rfl
    · exact .scalar rfl
  · exact .scalar rfl
  · exact .scalar rfl

end Sample

open Sample in
/-- Tags that are the same as data are left alone; a note of null is new. -/
theorem write_notifies_promotion :
    ∃ t, (Run.write (Run.dispatch 1) ⟨0⟩ promotion).result subscribed = (.ok (), t) ∧
      t.world.models.get? ⟨0⟩ = some ⟨⟨0⟩, [("title", .text "Prof"),
        ("tags", .object [("a", .null), ("b", .bool true)]), ("note", .null)], []⟩ ∧
      (Run.moments 1 (.call (.write ⟨0⟩ promotion) fun _ => .done) subscribed).filterMap
          (·.point.news) =
        [(none, ⟨0⟩, ⟨changeOf "note", .null⟩), (none, ⟨0⟩, ⟨changeOf "title", .text "Prof"⟩),
          (some 0, ⟨0⟩, ⟨changeOf "title", .text "Prof"⟩), (none, ⟨0⟩, ⟨changeEvent, .null⟩),
          (some 1, ⟨0⟩, ⟨changeEvent, .null⟩)] ∧
      (Run.write (Run.dispatch 1) ⟨0⟩ promotion).result t = (.ok (), t) := by
  obtain ⟨t, ended, stored, told, -, again, -⟩ := Run.write_notifies 0 subscribed_titled rfl
    (by decide +kernel) subscribed_isNotedOn (by decide) (by decide) promotion_areData
  have written : titled.written promotion = ⟨⟨0⟩, [("title", .text "Prof"),
      ("tags", .object [("a", .null), ("b", .bool true)]), ("note", .null)], []⟩ := by cbv
  refine ⟨t, ended, written ▸ stored, told.trans ?_, again⟩
  cbv

end LiveBinding
