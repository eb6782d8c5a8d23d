/-
# LiveBinding.Proofs.Announcement -- what is announced is what has changed

Whoever starts from the values of a model before a write and replays what is announced of
each name, has its values after the write (`announced_as_changed`).  So nothing changes
without being announced, and what is announced last of a name is its value in the end.

This takes properties that depend on their own model, whose changes are then told one within
the other, downwards in rank (`Scene`), and listeners of clients that only record.  What
getters give, and what they do to the client's state, does not matter.
-/
import Mathlib
import LiveBinding.Proofs.Ownership
import LiveBinding.Proofs.Propagation
import LiveBinding.Proofs.Run.Lawful
import LiveBinding.Proofs.Run.Telling

namespace LiveBinding

set_option autoImplicit false

variable {σ : Type}

/-! ## The scene of a write -/

/-- No two models of a run have one hub. -/
theorem Trail.ownHubs {start s : State σ} {past : List (Moment σ)} {awaited : Option (Call σ)}
    (bare : start.world.Announced) (own : start.world.OwnHubs)
    (trail : Trail start past awaited s) : s.world.OwnHubs := by
  have same : ∀ {v w : World σ}, w.models = v.models → Lasts v.hubs w.hubs →
      v.Announced ∧ v.OwnHubs → w.Announced ∧ w.OwnHubs := fun models lasts ⟨announced, own⟩ =>
    ⟨announced.of_rows lasts fun model m present => ⟨m, models ▸ present, rfl⟩,
      own.of_models models⟩
  have stepped : ∀ {careful attaching : Prop} {v w : World σ}, v.Steps careful attaching w →
      v.Announced ∧ v.OwnHubs → w.Announced ∧ w.OwnHubs := fun steps ⟨announced, own⟩ =>
    ⟨steps.announced announced, steps.ownHubs announced own⟩
  refine (trail.invariant False (fun _ s => s.world.Announced ∧ s.world.OwnHubs) ⟨bare, own⟩
    stepped (fun _ => id) (fun hub event callback => same
      (World.tables_subscribe hub event _ _).1 (World.lasts_subscribe hub event _ _))
    (fun subscription => same rfl (World.lasts_withdraw subscription _))
    (fun _ _ _ steps => stepped steps) (fun _ _ _ => same rfl (.refl _)) False.elim
    fun _ _ => False.elim).2

def State.OnlyRecords (s : State σ) : Prop :=
  ∀ sub number, Registered s.world.hubs sub (.client number) →
    ∀ callback, s.callbacks[number]? = some callback → ∀ event, (callback event).Records

/-- Where all listeners are accounted for, each is a client's, a slot's, or that of a property
that depends on what it listens to. -/
theorem World.Balanced.owner {ledger : List (Subscription × Nat)} {w : World σ}
    (balanced : w.Balanced ledger) {sub : Subscription} {reaction : Reaction}
    (registered : Registered w.hubs sub reaction) :
    (∃ number, reaction = .client number) ∨ (∃ binding slot, reaction = .reapply binding slot) ∨
      ∃ model m, w.models.get? model = some m ∧ ∃ p ∈ m.properties,
        sub.dependency ∈ p.dependencies ∧ reaction = .refresh model p.name := by
  have owed := balanced.listed.subset (mem_listed.mpr registered)
  rcases List.mem_append.mp owed with client | owed
  · obtain ⟨entry, -, same⟩ := List.mem_map.mp client
    exact Or.inl ⟨entry.2, (congrArg Prod.snd same).symm⟩
  rcases List.mem_append.mp owed with computed | bound
  · obtain ⟨model, m, present, due⟩ := Table.mem_gather.mp computed
    obtain ⟨p, listed, held⟩ := List.mem_flatMap.mp due
    obtain ⟨held, among, same⟩ := List.mem_map.mp held
    refine Or.inr (Or.inr ⟨model, m, present, p, listed, ?_, (congrArg Prod.snd same).symm⟩)
    have here : held = sub := congrArg Prod.fst same
    rw [← (balanced.models model m present p listed).1, ← here]
    exact List.mem_map_of_mem among
  · obtain ⟨binding, b, -, due⟩ := Table.mem_gather.mp bound
    obtain ⟨entry, -, same⟩ := List.mem_map.mp due
    exact Or.inr (Or.inl ⟨binding, entry.1, (congrArg Prod.snd same).symm⟩)

/-- There a model whose properties depend on nothing else is set for its changes to be told. -/
theorem scene_of_settled {past : List (Moment σ)} {s : State σ} {model : Ref .model} {m : Model σ}
    {rank : String → Nat} (settled : s.world.IsSettled past)
    (present : s.world.models.get? model = some m) (own : m.IsOwn)
    (falls : ∀ before after, m.Feeds before after → rank after < rank before)
    (alone : s.world.OwnHubs) (records : s.OnlyRecords) : Scene model m rank s where
  present := present
  falls := falls
  fed sub name registered := by
    rcases settled.balanced.owner registered with ⟨_, ⟨⟩⟩ | ⟨_, _, ⟨⟩⟩ | owned
    obtain ⟨_, found, there, p, listed, depends, ⟨⟩⟩ := owned
    cases present.symm.trans there
    obtain ⟨before, read⟩ := own p listed _ depends
    exact ⟨before, congrArg Dependency.hub read, congrArg Dependency.event read, p, listed, rfl,
      read ▸ depends⟩
  alone := alone
  unpushed sub binding slot registered := by
    rcases settled.balanced.owner registered with ⟨_, ⟨⟩⟩ | ⟨_, _, ⟨⟩⟩ | ⟨_, _, _, _, _, _, ⟨⟩⟩
  ordered := settled.balanced.ordered
  records := records

/-! ## Writing -/

namespace Run

variable {u v : State σ} {model : Ref .model} {m : Model σ} {rank : String → Nat}
  {attributes : Attributes} {depth : Nat}

/-- A write tells of each name how its value moves, and nothing else. -/
theorem tells_write (scene : Scene model m rank u) (kept : u.world.ModelsKept)
    (aside : m.MapsAside)
    (ended : (write (dispatch depth) model attributes).result u = (.ok (), v)) :
    ∃ reach, Tells u model m.hub nothingDue reach
      (errandMoments (dispatchMoments depth) (dispatch depth) (Opening.write model attributes) u)
      u v := by
  rw [write_eq] at ended
  rcases opened : (Opening.write model attributes).result u with ⟨halt | settled, t⟩
  · rw [errand, result_bind_error opened] at ended
    cases ended
  obtain ⟨pending, plain, puts⟩ := Opening.puts_write scene.present opened
  have written := plain aside
  -- what is fed is computed, and nothing computed is written
  have silent : ∀ name, (∃ before, Relation.TransGen m.Feeds before name) →
      valuesOf name (m.store.apply pending).2 = [] := by
    rintro name ⟨before, fed⟩
    have computed : m.isComputed name = true := by
      obtain ⟨_, -, p, listed, rfl, -⟩ := Relation.TransGen.tail'_iff.mp fed
      exact Model.isComputed_of_mem listed
    refine valuesOf_eq_nil fun change reported same => ?_
    have plain := written change.1 (List.mem_map_of_mem (Attributes.reported_mem reported))
    rw [same, computed] at plain
    cases plain
  refine ⟨_, tells_errand _ (fun name => valuesOf name (m.store.apply pending).2)
    (attests_dispatch scene depth) (.refl kept) opened puts scene.present
    (Model.sameShape_store _ m) ?_ (fun name => ?_) silent (fun name => ?_) ended⟩
  · rintro signal - name ⟨before, -, -, -, fed⟩
    exact ⟨before, fed⟩
  · rw [puts.signals]
    exact Signal.payload_announcements _ name
  · have there : (u.world.models.get? model).isSome := by rw [scene.present]; rfl
    rw [World.origin, World.origin, puts.models, World.get?_put_self there, scene.present]
    exact Model.origin_store written name

/-- What a write tells of an event: to everybody, or to one listener. -/
def told (depth : Nat) (model : Ref .model) (attributes : Attributes) (s : State σ)
    (hub : Ref .hub) (event : String) (who : Option Nat) : List Json :=
  payloads hub event who (moments depth (.call (.write model attributes) fun _ => .done) s)

theorem told_eq (ended : (write (dispatch depth) model attributes).result u = (.ok (), v))
    (hub : Ref .hub) (event : String) (who : Option Nat) :
    told depth model attributes u hub event who = payloads hub event who
      (errandMoments (dispatchMoments depth) (dispatch depth) (Opening.write model attributes) u) := by
  have performed : (perform (dispatch depth) (.write model attributes)).result u =
      (.ok (.ok ()), v) := by
    have attempted := result_attempt (write (dispatch depth) model attributes) u
    rw [ended] at attempted
    exact attempted
  have passed : moments depth (.call (.write model attributes) fun _ => .done) u =
      [⟨.making (.write model attributes), u⟩] ++ errandMoments (dispatchMoments depth)
        (dispatch depth) (Opening.write model attributes) u ++
        [⟨.made (.write model attributes) (.ok ()), v⟩] := moments_call performed
  have made : payloads hub event who [⟨.made (.write model attributes) (.ok ()), v⟩] = [] :=
    payloads_of_silent (by simp [Point.news])
  have making : payloads hub event who [⟨.making (.write model attributes), u⟩] = [] :=
    payloads_of_silent (by simp [Point.news])
  rw [told, passed, payloads_append, payloads_append, made, making, List.nil_append,
    List.append_nil]

/-- The model is lawful after the write as before it, if that ends well. -/
theorem lawful_write (lawful : u.world.Rows fun _ (m : Model σ) => m.IsLawful)
    (ended : (write (dispatch depth) model attributes).result u = (.ok (), v)) :
    v.world.Rows fun _ (m : Model σ) => m.IsLawful := by
  have opened : ∀ ended t, (Opening.write model attributes).result u = (ended, t) →
      Trail u [⟨.making (.write model attributes), u⟩] none t := fun _ _ =>
    .opened (.making .start (.write model attributes)) rfl
  have trail := trail_errand (visits_dispatch u depth) opened
  rw [← write_eq, ended] at trail
  exact trail.lawful lawful

end Run

/-- What is announced is what has changed.  When a write ends well, whoever has subscribed to
the changes of a name and replays what it is called with, from the value that the name had
before, has the value that the name has then.  So a name whose value is another one was
announced, and what was announced last is that value. -/
theorem announced_as_changed {program : Program σ} {client : σ} {depth₀ depth : Nat}
    {u v : State σ} {model : Ref .model} {m : Model σ} {attributes : Attributes}
    (careful : ∀ moment ∈ Run.moments depth₀ program ⟨.empty, [], client⟩, moment.IsCareful)
    (left : ((Run.run depth₀ program).result ⟨.empty, [], client⟩).2 = u)
    (records : u.OnlyRecords) (present : u.world.models.get? model = some m) (own : m.IsOwn)
    (distinct : (m.properties.map (·.name)).Nodup) (aside : m.MapsAside)
    (data : m.store.AreData)
    (ended : (Run.write (Run.dispatch depth) model attributes).result u = (.ok (), v)) :
    ∃ m', v.world.models.get? model = some m' ∧
      ∀ name who, u.world.Listens m.hub name who →
        (replay (m.read name)
          (Run.told depth model attributes u m.hub (changeOf name) who)).Agrees (m'.read name) ∧
        (¬ (m.read name).Agrees (m'.read name) → ∃ earlier last,
          Run.told depth model attributes u m.hub (changeOf name) who = earlier ++ [last] ∧
            last.Agrees (m'.read name)) := by
  subst left
  have trail := Run.trail_moments depth₀ program ⟨.empty, [], client⟩
  have settled := trail.isSettled World.isSettled_empty careful
  have none : ∀ {model m}, (World.empty : World σ).models.get? model ≠ some m := by
    intro model m present
    exact nomatch (Table.get?_empty model).symm.trans present
  have lawful := trail.lawful fun _ _ present => absurd present none
  obtain ⟨rank, falls⟩ := (lawful model m present).ranked
  have alone := trail.ownHubs World.isSettled_empty.balanced.announced
    fun _ _ _ _ present => absurd present none
  have scene := scene_of_settled settled present own falls alone records
  obtain ⟨reach, tells⟩ := Run.tells_write scene settled.models aside ended
  obtain ⟨m', there⟩ := Option.isSome_iff_exists.mp (tells.stands.there model (by rw [present]; rfl))
  obtain ⟨old, was, same⟩ := tells.stands.rows model m' there
  cases present.symm.trans was
  have stores := (lawful model m present).stores distinct aside
  have storesThen := (Run.lawful_write lawful ended model m' there).stores
    (same.names.symm ▸ distinct) (same.mapsAside aside)
  refine ⟨m', there, fun name who listens => ?_⟩
  obtain ⟨moved, told, origin, -⟩ := tells.told name
  rw [World.origin, World.origin, there, present] at origin
  have announced := Run.told_eq ended m.hub (changeOf name) who
  rw [told who listens, List.nil_append] at announced
  have agrees := Model.agrees_replay data stores storesThen origin
  rw [announced]
  refine ⟨agrees, fun differs => ?_⟩
  rcases List.eq_nil_or_concat moved with rfl | ⟨earlier, last, rfl⟩
  · exact absurd agrees differs
  · rw [List.concat_eq_append, replay_concat] at agrees
    exact ⟨earlier, last, List.concat_eq_append, agrees⟩

/-! ## A run -/

namespace Sample

def beside (name other : String) : Getter (List Json) :=
  .read none true name fun first => .read none true other fun last =>
    .done (.text (first.displayText ++ " " ++ last.displayText))

/-- A full name, which is stored, and the same for a letter. -/
def calling : List (String × Definition (List Json)) :=
  [("full", { Definition.ofGetter (beside "first" "last") with isVirtual := false }),
    ("letter", .ofGetter (beside "title" "full"))]

/-- A client that keeps how letters begin. -/
def registrar : Program (List Json) :=
  .call (.openModel [("title", .text "Ms"), ("first", .text "Ada"), ("last", .text "Byron")])
    fun (model : Ref .model) =>
    .call (.bindComputed model calling) fun _ =>
    .subscribe ⟨0⟩ (changeOf "letter") (fun told => .change (· ++ [told.value]) .done) fun _ => .done

def registered : State (List Json) :=
  ((Run.run 5 registrar).result ⟨.empty, [], []⟩).2

def lady : Model (List Json) :=
  ⟨⟨0⟩, [("title", .text "Ms"), ("first", .text "Ada"), ("last", .text "Byron"),
      ("full", .text "Ada Byron")],
    [⟨"full", beside "first" "last", none, false, .text "Ada Byron",
        [⟨⟨0⟩, "change:first"⟩, ⟨⟨0⟩, "change:last"⟩],
        [⟨⟨0⟩, 0, "change:first"⟩, ⟨⟨0⟩, 1, "change:last"⟩]⟩,
      ⟨"letter", beside "title" "full", none, true, .text "Ms Ada Byron",
        [⟨⟨0⟩, "change:title"⟩, ⟨⟨0⟩, "change:full"⟩],
        [⟨⟨0⟩, 2, "change:title"⟩, ⟨⟨0⟩, 3, "change:full"⟩]⟩]⟩

def wedding : Attributes := [("title", .text "Mrs"), ("last", .text "Lovelace")]

def wed : State (List Json) :=
  ((Run.write (Run.dispatch 5) ⟨0⟩ wedding).result registered).2

theorem registered_lady : registered.world.models.get? ⟨0⟩ = some lady := by cbv

theorem lady_hub : lady.hub = ⟨0⟩ := rfl

theorem lady_isOwn : lady.IsOwn := by
  intro p listed d depends
  rcases List.mem_pair.mp listed with rfl | rfl
  · rcases List.mem_pair.mp depends with rfl | rfl
    · exact ⟨"first", rfl⟩
    · exact ⟨"last", rfl⟩
  · rcases List.mem_pair.mp depends with rfl | rfl
    · exact ⟨"title", rfl⟩
    · exact ⟨"full", rfl⟩

theorem lady_mapsAside : lady.MapsAside := by
  intro p listed setter given
  rcases List.mem_pair.mp listed with rfl | rfl <;> cases given

theorem registered_onlyRecords : registered.OnlyRecords := by
  intro _ number _ callback known event
  have only : registered.callbacks = [fun told => .change (· ++ [told.value]) .done] := by cbv
  rw [only, List.getElem?_eq_some_iff] at known
  obtain ⟨first, rfl⟩ := known
  obtain rfl : number = 0 := by simpa using first
  exact .change _ .done

end Sample

open Sample in
/-- Title and name are stored before anything is announced, so the letter changes within the
change of the title, and then once more.  The client was told of both, in order. -/
theorem announced_as_changed_wedding :
    Run.told 5 ⟨0⟩ wedding registered ⟨0⟩ (changeOf "letter") (some 4) = wed.client ∧
      wed.client = [.text "Mrs Ada Byron", .text "Mrs Ada Lovelace"] ∧
      ∃ m', wed.world.models.get? ⟨0⟩ = some m' ∧
        (replay (lady.read "letter") wed.client).Agrees (m'.read "letter") := by
  have careful : ∀ moment ∈ Run.moments 5 registrar ⟨.empty, [], []⟩, moment.IsCareful := by
    decide +kernel
  have ended : (Run.write (Run.dispatch 5) ⟨0⟩ wedding).result registered = (.ok (), wed) :=
    Run.result_of_isOk (by decide +kernel)
  have scalar : ∀ entry ∈ lady.store, entry.2.isScalar = true := by decide
  have left : ((Run.run 5 registrar).result ⟨.empty, [], []⟩).2 = registered := rfl
  obtain ⟨m', there, each⟩ := announced_as_changed careful left registered_onlyRecords
    registered_lady lady_isOwn (by decide) lady_mapsAside
    (fun entry listed => .scalar (scalar entry listed)) ended
  have heard : (4, .client 0) ∈ Run.listeners registered.world
      (.event ⟨0⟩ ⟨changeOf "letter", .null⟩) := by decide +kernel
  have listens : registered.world.Listens ⟨0⟩ "letter" (some 4) :=
    Or.inr ⟨4, .client 0, rfl, Follower.mem_listeners_event.mp heard⟩
  have kept : Run.told 5 ⟨0⟩ wedding registered ⟨0⟩ (changeOf "letter") (some 4) = wed.client := by
    cbv
  have replayed := (each "letter" (some 4) listens).1
  rw [lady_hub, kept] at replayed
  exact ⟨kept, by cbv, m', there, replayed⟩

end LiveBinding
