/-
# LiveBinding.Proofs.Propagation -- what passed the check for cycles comes to an end

Properties that declare no events and read only their own model depend on its attributes
and on nothing else.  Binding them succeeds only where no cycle is found, and then what
feeds ranks above what is fed (`Run.bindComputed_ranks`).  From then on every write to the
model comes to an end, and whatever is noted meanwhile stands in a chain of updates no two
of which are of the same property (`write_ends`).

This takes clients that only look on.  It also takes that what a write sets off in other
models, whose properties may listen to this one, does not come back to itself there: the
check is of one model at a time, and of what getters read, so it does not see to that
(`echoes_for_ever`).  What getters give does not matter, nor whether they fail.
-/
import LiveBinding.Proofs.Run.Cascade
import LiveBinding.Proofs.Run.Rows
import LiveBinding.Proofs.Run.Stretch

namespace LiveBinding

set_option autoImplicit false

variable {σ : Type}

/-! ## Properties that read only their own model -/

/-- The definition declares no events, and its getter reads only the model it is for. -/
structure Definition.IsOwn (model : Ref .model) (definition : Definition σ) : Prop where
  plain : definition.events = []
  own : ∀ getter, definition.getter = some getter → getter.ReadsOwn model

/-- Properties depend on nothing but attributes of the model, and what feeds ranks above what
is fed. -/
structure Model.IsRanked (m : Model σ) : Prop where
  own : m.IsOwn
  ranked : ∃ rank : String → Nat, ∀ before after, m.Feeds before after → rank after < rank before

namespace Model

variable {m m' : Model σ}

theorem SameShape.isRanked (same : m.SameShape m') (ranked : m.IsRanked) : m'.IsRanked := by
  obtain ⟨own, rank, falls⟩ := ranked
  exact ⟨same.isOwn own, rank, fun before after feeds => falls before after (same.feeds feeds)⟩

/-- Where models without properties are concerned, and what writes change, ranks stay. -/
theorem rowLaw_isRanked (model : Ref .model) :
    World.RowLaw fun other (m : Model σ) => other = model → m.IsRanked where
  bare := by
    intro other m none _
    have absent : ∀ p, p ∉ m.properties := by simp [none]
    exact ⟨fun p listed => absurd listed (absent p), fun _ => 0,
      fun _ _ ⟨p, listed, _⟩ => absurd listed (absent p)⟩
  written ranked _ same := (sameShape_store _ _).isRanked (ranked same)
  adopted _ ranked _ same := (sameShape_adopt _ _ _).isRanked (ranked same)

theorem IsBuilt.exists_entry {model : Ref .model} {definitions : List (String × Definition σ)}
    (built : m.IsBuilt model definitions) {p : Property σ} (listed : p ∈ m.properties) :
    ∃ entry ∈ definitions, p.IsBuilt model m.hub entry := by
  unfold IsBuilt at built
  generalize m.properties = properties at built listed
  induction built with
  | nil => cases listed
  | @cons q entry _ _ first _ ih =>
      rcases List.mem_cons.mp listed with rfl | later
      · exact ⟨entry, List.mem_cons_self, first⟩
      · obtain ⟨other, among, rest⟩ := ih later
        exact ⟨other, List.mem_cons_of_mem _ among, rest⟩

/-- What was built from such definitions and passed the check has ranks. -/
theorem IsBuilt.isRanked {model : Ref .model} {definitions : List (String × Definition σ)}
    (own : ∀ entry ∈ definitions, entry.2.IsOwn model) (built : m.IsBuilt model definitions)
    (acyclic : Graph.findCycle m.dependents = none) : m.IsRanked where
  own p listed d depends := by
    obtain ⟨entry, among, first⟩ := built.exists_entry listed
    rcases first.depends d depends with declared | ⟨getter, sight, look, client, given, sees, read⟩
    · rw [(own entry among).plain] at declared
      cases declared
    · exact ((own entry among).own getter given).captured sees true client
        (fun _ none => absurd none List.not_mem_nil) d read
  ranked := by
    obtain ⟨rank, falls, -⟩ := m.exists_rank acyclic
    exact ⟨rank, falls⟩

end Model

/-! ## Binding them -/

/-- Where binding such definitions succeeds, while clients look on, the model has ranks. -/
theorem Run.bindComputed_ranks {s t : State σ} {model : Ref .model} {m : Model σ}
    {definitions : List (String × Definition σ)} {depth : Nat}
    (own : ∀ entry ∈ definitions, entry.2.IsOwn model) (quiet : s.IsQuiet)
    (bound : (bindComputed (dispatch depth) model definitions).result s = (.ok (), t))
    (present : t.world.models.get? model = some m) : m.IsRanked := by
  have lawful := Model.rowLaw_isRanked (σ := σ) model
  have opened : ((Opening.bindComputed model definitions).result s).2.world.Rows _ :=
    rows_bindComputed lawful (fun other m distinct _ same => absurd same distinct)
      fun m _ built acyclic _ => (Model.sameShape_store _ m).isRanked (built.isRanked own acyclic)
  rcases worked : (Opening.bindComputed model definitions).result s with ⟨ended, r⟩
  rw [worked] at opened
  -- what is dispatched then binds nothing
  have allows : r.Allows Call.IsQuiet := by
    have opens : (Call.bindComputed model definitions).opening =
      some (Opening.bindComputed model definitions) := rfl
    rw [State.Allows, callbacks_opening opens worked]
    exact quiet
  have started : ∀ ended' r', (Opening.bindComputed model definitions).result s = (ended', r') →
      Stretch Call.IsQuiet [] r r' := by
    intro ended' r' workedToo
    cases worked.symm.trans workedToo
    exact .refl r
  have dispatched := stretch_errand (stretches_dispatch depth) allows started
  rw [← bindComputed_eq_errand, bound] at dispatched
  exact dispatched.abides lawful.abiding (fun _ _ quiet => quiet.elim) opened model m present rfl

/-! ## Writing -/

/-- The state comes about, clients only look on, and what changes of the model set off in other
models does not come back to itself. -/
structure State.Watched (model : Ref .model) (s : State σ) : Prop where
  reachable : Reachable s
  quiet : s.IsQuiet
  unwinds : s.world.Unwinds model

/-- Nothing comes twice in a chain along which ranks fall. -/
theorem nodup_of_isChain {α : Type} {feeds : α → α → Prop} {rank : α → Nat}
    (falls : ∀ before after, feeds before after → rank after < rank before) {chain : List α}
    (linked : chain.IsChain feeds) : chain.Nodup := by
  have descends : chain.IsChain fun before after => rank after < rank before := linked.imp falls
  have all : chain.Pairwise fun before after => rank after < rank before := by
    have : Trans (fun before after : α => rank after < rank before)
        (fun before after => rank after < rank before)
        (fun before after => rank after < rank before) :=
      ⟨fun first then_ => Nat.lt_trans then_ first⟩
    exact List.isChain_iff_pairwise.mp descends
  refine all.imp fun {before after} lower same => ?_
  rw [same] at lower
  exact Nat.lt_irrefl _ lower

/-- Once definitions have been bound that declare no events and read only their own model,
a write to a model that still has these properties ends well or fails, however deep its
updates nest: dispatches need not nest deeper than there are properties, and one more.
At each moment of it, what is being updated, each within the one before it, are properties
no two of which are the same, and each listens to the change of the one before it: among the
model's own properties, it captured that change. -/
theorem write_ends {r t u : State σ} {model : Ref .model} {bound m : Model σ}
    {definitions : List (String × Definition σ)} {before depth : Nat}
    (own : ∀ entry ∈ definitions, entry.2.IsOwn model) (quiet : r.IsQuiet)
    (binding : (Run.bindComputed (Run.dispatch before) model definitions).result r = (.ok (), t))
    (there : t.world.models.get? model = some bound)
    (watched : u.Watched model) (present : u.world.models.get? model = some m)
    (same : bound.SameShape m) (deep : u.world.computed.length < depth) (attributes : Attributes) :
    ∃ ended v, (Run.write (Run.dispatch depth) model attributes).result u = (ended, v) ∧
      ended ≠ .error .exhausted ∧
      ∀ entry ∈ v.world.journal.drop u.world.journal.length, ∃ inner chain,
        entry.spans = u.world.spans ++ inner ∧ chain.map (·.name) = Span.updates inner ∧
          (chain ++ entry.happening.evaluating).Nodup ∧
          (chain ++ entry.happening.evaluating).IsChain fun a b => u.world.Feeds a b ∧
            (a.model = model → b.model = model → m.Feeds a.name b.name) := by
  obtain ⟨ownNow, level, sinks⟩ := same.isRanked (Run.bindComputed_ranks own quiet binding there)
  have warranted := warranted_of_reachable watched.reachable
  have captured : ∀ a b, u.world.Feeds a b → a.model = model → b.model = model →
      m.Feeds a.name b.name :=
    fun _ _ feeds => feeds.own warranted present ownNow
  obtain ⟨rank, falls, bounded⟩ := World.exists_rank fun _ => watched.unwinds.acyclic
    fun a b feeds within onto => sinks _ _ (captured a b feeds within onto)
  obtain ⟨ended, v, worked, ends, -, -, -, notes⟩ := Run.write_cascades attributes warranted falls
    (fun a => Nat.lt_of_le_of_lt (bounded a) deep) present ⟨.refl u.world, watched.quiet⟩
  refine ⟨ended, v, worked, ends, fun entry added => ?_⟩
  obtain ⟨inner, chain, spans, updates, linked⟩ := notes entry added
  exact ⟨inner, chain, spans, updates, nodup_of_isChain falls linked,
    linked.imp fun a b passes => ⟨passes.2, captured a b passes.2⟩⟩

/-! ## Running out of depth -/

namespace Run

variable {s t : State σ}

/-- A dispatch runs out of depth if its first listener does. -/
theorem dispatch_exhausted {depth id : Nat} {signal : Signal} {reaction : Reaction}
    {rest : List (Nat × Reaction)} (listening : listeners s.world signal = (id, reaction) :: rest)
    (exhausted : ∀ t : State σ, t = (s.alter (.happen (.dispatched signal))).alter
        (.happen (.called s.world.journal.length id)) →
      ((react (dispatch depth) (eventOf signal) reaction).result t).1 = .error .exhausted) :
    ((dispatch (depth + 1) signal).result s).1 = .error .exhausted := by
  rcases reacted : (react (dispatch depth) (eventOf signal) reaction).result
    ((s.alter (.happen (.dispatched signal))).alter
      (.happen (.called s.world.journal.length id))) with ⟨ended, t⟩
  obtain rfl : ended = .error .exhausted := by
    rw [← exhausted _ rfl, reacted]
  have listed : (id, reaction) ∈ listeners s.world signal := by
    rw [listening]
    exact List.mem_cons_self
  have registered : isRegistered (s.alter (.happen (.dispatched signal))).world signal id = true :=
    Follower.isRegistered_of_mem_listeners listed
  rw [result_dispatch, listening, deliver, result_world_bind, if_pos registered, result_alter_bind,
    result_bind_error reacted]

/-- An errand runs out of depth if its dispatches do. -/
theorem errand_exhausted {fire : Fire σ} {opening : Run σ Errand} {settled : Errand}
    (opened : opening.result s = (.ok settled, t))
    (exhausted : ((fireAll fire settled.signals).result t).1 = .error .exhausted) :
    ((errand fire opening).result s).1 = .error .exhausted := by
  rw [errand, result_bind_ok opened, result_lastly]
  exact exhausted

theorem fireAll_exhausted {fire : Fire σ} {signal : Signal} {rest : List Signal}
    (exhausted : ((fire signal).result s).1 = .error .exhausted) :
    ((fireAll fire (signal :: rest)).result s).1 = .error .exhausted := by
  rcases fired : (fire signal).result s with ⟨ended, t⟩
  rw [fired] at exhausted
  cases exhausted
  rw [fireAll, result_bind_error fired]

end Run

/-! ## A tower of lists, and a mirror -/

namespace Sample

def twice (name : String) : Getter Unit :=
  .read none true name fun value => .done (.list [value, value])

theorem readsOwn_twice (name : String) (model : Ref .model) : (twice name).ReadsOwn model :=
  .read rfl fun _ => .done _

def pair : String × Definition Unit := ("pair", .ofGetter (twice "x"))

/-- Lists of lists; no two of them are ever taken to be the same. -/
def quad : String × Definition Unit :=
  ("quad", { Definition.ofGetter (twice "pair") with isVirtual := false })

theorem own_twice {field : String} {isVirtual : Bool} :
    ({ Definition.ofGetter (twice field) with isVirtual } : Definition Unit).IsOwn ⟨0⟩ := by
  refine ⟨rfl, fun getter given => ?_⟩
  cases given
  exact readsOwn_twice field ⟨0⟩

def mirror : String × Definition Unit :=
  ("mirror", .ofGetter (.read (some ⟨0⟩) true "pair" .done))

/-- A new list whenever anything of the second model changes. -/
def noise : String × Definition Unit :=
  ("noise", { Definition.ofGetter (.done (.list [])) with events := [⟨⟨1⟩, changeEvent⟩] })

/-- Two models, a client that reports what changes, and what comes then. -/
def ground (next : Program Unit) : Program Unit :=
  .call (.openModel [("x", .text "1")]) fun (_ : Ref .model) =>
    .call (.openModel []) fun (_ : Ref .model) =>
      .subscribe ⟨0⟩ (changeOf "quad")
        (fun _ => .call (.report (.selectorSkipped "quad")) fun _ => .done) fun _ => next

def plot : State Unit :=
  ((Run.run 5 (ground .done)).result ⟨.empty, [], ()⟩).2

def raise (floors : List (String × Definition Unit)) : State Unit :=
  ((Run.bindComputed (Run.dispatch 5) ⟨0⟩ floors).result plot).2

def hang (floors mirrors : List (String × Definition Unit)) : State Unit :=
  ((Run.bindComputed (Run.dispatch 5) ⟨1⟩ mirrors).result (raise floors)).2

theorem result_ground (next : Program Unit) :
    (Run.run 5 (ground next)).result ⟨.empty, [], ()⟩ = (Run.exec (Run.dispatch 5) next).result plot :=
  rfl

theorem reachable_hang {floors mirrors : List (String × Definition Unit)}
    (raised : (Run.bindComputed (Run.dispatch 5) ⟨0⟩ floors).result plot = (.ok (), raise floors))
    (hung : (Run.bindComputed (Run.dispatch 5) ⟨1⟩ mirrors).result (raise floors) =
      (.ok (), hang floors mirrors)) : Reachable (hang floors mirrors) := by
  refine ⟨(), 5, ground (.call (.bindComputed ⟨0⟩ floors) fun _ =>
    .call (.bindComputed ⟨1⟩ mirrors) fun _ => .done), .ok (), nofun, ?_⟩
  have first := Run.result_attempt (Run.bindComputed (Run.dispatch 5) ⟨0⟩ floors) plot
  rw [raised] at first
  have second := Run.result_attempt (Run.bindComputed (Run.dispatch 5) ⟨1⟩ mirrors) (raise floors)
  rw [hung] at second
  rw [result_ground, Run.exec]
  refine (Run.result_bind_ok first).trans ?_
  exact Run.result_bind_ok second

theorem isQuiet_of_callbacks {s : State Unit} (only : s.callbacks =
    [fun _ => .call (.report (.selectorSkipped "quad")) fun _ => .done]) : s.IsQuiet := by
  intro callback listed event
  rw [only] at listed
  rw [List.mem_singleton.mp listed]
  exact .call trivial fun _ => .done

theorem raise_floors : (Run.bindComputed (Run.dispatch 5) ⟨0⟩ [pair, quad]).result plot =
    (.ok (), raise [pair, quad]) :=
  Run.result_of_isOk (by decide +kernel)

theorem hang_mirror : (Run.bindComputed (Run.dispatch 5) ⟨1⟩ [mirror]).result (raise [pair, quad]) =
    (.ok (), hang [pair, quad] [mirror]) :=
  Run.result_of_isOk (by decide +kernel)

theorem watched_hang : (hang [pair, quad] [mirror]).Watched ⟨0⟩ where
  reachable := reachable_hang raise_floors hang_mirror
  quiet := isQuiet_of_callbacks rfl
  unwinds := by
    -- the mirror is the only property of another model, and nothing listens to that model
    have hub : ((hang [pair, quad] [mirror]).world.models.get? ⟨1⟩).map (·.hub) = some ⟨1⟩ := rfl
    have listeners : ((hang [pair, quad] [mirror]).world.hubs.get? ⟨1⟩).map (·.listeners) =
      some [] := rfl
    have all : ∀ a ∈ (hang [pair, quad] [mirror]).world.computed, a.model = ⟨0⟩ ∨ a.model = ⟨1⟩ := by
      decide +kernel
    refine World.unwinds_of_unheard fun a listed apart m present s b on registered => ?_
    rw [(all a listed).resolve_left apart] at present
    obtain ⟨h, here, among⟩ := registered
    rw [present, Option.map_some, Option.some_inj] at hub
    rw [on, hub] at here
    rw [here, Option.map_some, Option.some_inj] at listeners
    rw [listeners] at among
    cases among

end Sample

open Sample in
/-- Another `x` sets off updates of both lists and of the mirror, within that of the first, and
they come to an end. -/
theorem write_ends_raised : ∃ m,
    (hang [pair, quad] [mirror]).world.models.get? ⟨0⟩ = some m ∧
    ∃ ended v, (Run.write (Run.dispatch 5) ⟨0⟩ [("x", .text "2")]).result
        (hang [pair, quad] [mirror]) = (ended, v) ∧
      ended ≠ .error .exhausted ∧
      ∀ entry ∈ v.world.journal.drop (hang [pair, quad] [mirror]).world.journal.length,
        ∃ inner chain, entry.spans = (hang [pair, quad] [mirror]).world.spans ++ inner ∧
          chain.map (·.name) = Span.updates inner ∧
          (chain ++ entry.happening.evaluating).Nodup ∧
          (chain ++ entry.happening.evaluating).IsChain fun a b =>
            (hang [pair, quad] [mirror]).world.Feeds a b ∧
              (a.model = ⟨0⟩ → b.model = ⟨0⟩ → m.Feeds a.name b.name) := by
  obtain ⟨m, present⟩ : ∃ m, (hang [pair, quad] [mirror]).world.models.get? ⟨0⟩ = some m :=
    Option.isSome_iff_exists.mp (by decide +kernel)
  have same : (raise [pair, quad]).world.models.get? ⟨0⟩ =
      (hang [pair, quad] [mirror]).world.models.get? ⟨0⟩ := rfl
  have own : ∀ entry ∈ [pair, quad], entry.2.IsOwn ⟨0⟩ := by
    intro entry listed
    rcases List.mem_pair.mp listed with rfl | rfl <;> exact own_twice
  exact ⟨m, present, write_ends own (isQuiet_of_callbacks rfl) raise_floors (same.trans present)
    watched_hang present (.refl m) (by decide +kernel) [("x", .text "2")]⟩

/-! ## An echo -/

namespace Sample

/-- The world after some of the noise: the first model has a new `x`, and how far the others
have followed is open. -/
def ringing (pairs mirrors : List Json) (held : List Handle) (journal : List Entry)
    (spans : List Span) : State Unit :=
  let w := (hang [pair] [mirror, noise]).world
  { hang [pair] [mirror, noise] with
    world := { w with
      models := (w.models.update ⟨0⟩ fun m =>
        { m.setValue "pair" (.list pairs) with store := [("x", .text "2")] }).update ⟨1⟩
          (.setValue "mirror" (.list mirrors))
      held := held
      journal := journal
      spans := spans } }

def Rings (s : State Unit) : Prop :=
  ∃ pairs mirrors held journal spans, s = ringing pairs mirrors held journal spans

theorem Rings.alter {s : State Unit} (rings : Rings s) (happening : Happening) :
    Rings (s.alter (.happen happening)) := by
  obtain ⟨pairs, mirrors, held, journal, spans, rfl⟩ := rings
  exact ⟨pairs, mirrors, held, _, spans, rfl⟩

/-- A property listens to the event, and each time has another value to tell. -/
def Relays (signal : Signal) (id : Nat) (a : Accessor) (event : String) (hub : Ref .hub) : Prop :=
  ∀ s, Rings s → Run.listeners s.world signal = [(id, .refresh a.model a.name)] ∧
    ∃ value closings t, Rings t ∧ (Opening.refresh a.model a.name).result s =
      (.ok ⟨[.event hub ⟨event, value⟩, .event hub ⟨changeEvent, .null⟩], closings⟩, t)

theorem relays_pair : Relays (.event ⟨0⟩ ⟨changeOf "x", .text "2"⟩) 1 ⟨"pair", ⟨0⟩⟩
    (changeOf "pair") ⟨0⟩ := by
  rintro _ ⟨pairs, mirrors, held, journal, spans, rfl⟩
  exact ⟨rfl, _, _, ringing [.text "2", .text "2"] mirrors _ _ _, ⟨_, mirrors, _, _, _, rfl⟩, rfl⟩

theorem relays_mirror (value : Json) : Relays (.event ⟨0⟩ ⟨changeOf "pair", value⟩) 2
    ⟨"mirror", ⟨1⟩⟩ (changeOf "mirror") ⟨1⟩ := by
  rintro _ ⟨pairs, mirrors, held, journal, spans, rfl⟩
  exact ⟨rfl, _, _, ringing pairs pairs _ _ _, ⟨pairs, _, _, _, _, rfl⟩, rfl⟩

theorem relays_noise : Relays (.event ⟨1⟩ ⟨changeEvent, .null⟩) 0 ⟨"noise", ⟨1⟩⟩
    (changeOf "noise") ⟨1⟩ := by
  rintro _ ⟨pairs, mirrors, held, journal, spans, rfl⟩
  exact ⟨rfl, _, _, ringing pairs mirrors _ _ _, ⟨pairs, mirrors, _, _, _, rfl⟩, rfl⟩

/-- Nobody listens to either property of the second model. -/
theorem silent_ringing {s : State Unit} (rings : Rings s) {event : String}
    (unheard : event = changeOf "mirror" ∨ event = changeOf "noise") (depth : Nat) (value : Json) :
    ∃ t, Rings t ∧
      (Run.dispatch (depth + 1) (.event ⟨1⟩ ⟨event, value⟩)).result s = (.ok (), t) := by
  obtain ⟨pairs, mirrors, held, journal, spans, rfl⟩ := rings
  rcases unheard with rfl | rfl <;>
    exact ⟨ringing pairs mirrors _ _ _, ⟨pairs, mirrors, _, _, _, rfl⟩, rfl⟩

/-- What is told in a refresh runs out of depth, and so does what the refresh is of. -/
theorem Relays.exhausted {signal : Signal} {depth id : Nat} {a : Accessor} {event : String}
    {hub : Ref .hub} {s : State Unit} (relays : Relays signal id a event hub) (rings : Rings s)
    (told : ∀ value t, Rings t → ((Run.fireAll (Run.dispatch depth)
      [.event hub ⟨event, value⟩, .event hub ⟨changeEvent, .null⟩]).result t).1 =
        .error .exhausted) :
    ((Run.dispatch (depth + 1) signal).result s).1 = .error .exhausted := by
  refine Run.dispatch_exhausted (relays s rings).1 fun t here => ?_
  have still : Rings t := here ▸ (rings.alter _).alter _
  obtain ⟨-, value, closings, u, after, opened⟩ := relays t still
  rw [Run.react_opening _ rfl]
  exact Run.errand_exhausted opened (told value u after)

/-- Noise tells of a change, and that is noise again. -/
theorem noise_exhausted (depth : Nat) {s : State Unit} (rings : Rings s) :
    ((Run.dispatch depth (.event ⟨1⟩ ⟨changeEvent, .null⟩)).result s).1 = .error .exhausted := by
  induction depth generalizing s with
  | zero => rfl
  | succ depth ih =>
      refine relays_noise.exhausted rings fun value t after => ?_
      cases depth with
      | zero => rfl
      | succ depth =>
          obtain ⟨u, later, silent⟩ := silent_ringing after (Or.inr rfl) depth value
          rw [Run.fireAll, Run.result_bind_ok silent]
          exact Run.fireAll_exhausted (ih later)

theorem mirror_exhausted (depth : Nat) (value : Json) {s : State Unit} (rings : Rings s) :
    ((Run.dispatch depth (.event ⟨0⟩ ⟨changeOf "pair", value⟩)).result s).1 =
      .error .exhausted := by
  cases depth with
  | zero => rfl
  | succ depth =>
      refine (relays_mirror value).exhausted rings fun value t after => ?_
      cases depth with
      | zero => rfl
      | succ depth =>
          obtain ⟨u, later, silent⟩ := silent_ringing after (Or.inl rfl) depth value
          rw [Run.fireAll, Run.result_bind_ok silent]
          exact Run.fireAll_exhausted (noise_exhausted _ later)

theorem pair_exhausted (depth : Nat) {s : State Unit} (rings : Rings s) :
    ((Run.dispatch depth (.event ⟨0⟩ ⟨changeOf "x", .text "2"⟩)).result s).1 =
      .error .exhausted := by
  cases depth with
  | zero => rfl
  | succ depth =>
      exact relays_pair.exhausted rings fun value t after =>
        Run.fireAll_exhausted (mirror_exhausted depth value after)

theorem raise_pair : (Run.bindComputed (Run.dispatch 5) ⟨0⟩ [pair]).result plot =
    (.ok (), raise [pair]) :=
  Run.result_of_isOk (by decide +kernel)

theorem hang_noise : (Run.bindComputed (Run.dispatch 5) ⟨1⟩ [mirror, noise]).result (raise [pair]) =
    (.ok (), hang [pair] [mirror, noise]) :=
  Run.result_of_isOk (by decide +kernel)

end Sample

open Sample in
/-- The model passed the check, and clients only look on.  But the other model has a property
that reads one of these, and one that listens to whatever changes there.  No write then comes to
an end, however deep it may nest, and soon a property is updated within its own update. -/
theorem echoes_for_ever :
    (∀ entry ∈ [pair], entry.2.IsOwn ⟨0⟩) ∧ plot.IsQuiet ∧
    (Run.bindComputed (Run.dispatch 5) ⟨0⟩ [pair]).result plot = (.ok (), raise [pair]) ∧
    Reachable (hang [pair] [mirror, noise]) ∧ (hang [pair] [mirror, noise]).IsQuiet ∧
    (raise [pair]).world.models.get? ⟨0⟩ =
      (hang [pair] [mirror, noise]).world.models.get? ⟨0⟩ ∧
    (∀ depth, ((Run.write (Run.dispatch depth) ⟨0⟩ [("x", .text "2")]).result
      (hang [pair] [mirror, noise])).1 = .error .exhausted) ∧
    ∃ entry ∈ ((Run.write (Run.dispatch 5) ⟨0⟩ [("x", .text "2")]).result
        (hang [pair] [mirror, noise])).2.world.journal.drop
          (hang [pair] [mirror, noise]).world.journal.length,
      ¬ (Span.updates entry.spans).Nodup := by
  have own : ∀ entry ∈ [pair], entry.2.IsOwn ⟨0⟩ := by
    intro entry listed
    rw [List.mem_singleton.mp listed]
    exact own_twice
  refine ⟨own, isQuiet_of_callbacks rfl, raise_pair, reachable_hang raise_pair hang_noise,
    isQuiet_of_callbacks rfl, rfl, fun depth => ?_, by decide +kernel⟩
  obtain ⟨pairs, mirrors, held, journal, spans, signals, closings, opened⟩ :
      ∃ pairs mirrors held journal spans signals closings,
        (Opening.write ⟨0⟩ [("x", .text "2")]).result (hang [pair] [mirror, noise]) =
          (.ok ⟨.event ⟨0⟩ ⟨changeOf "x", .text "2"⟩ :: signals, closings⟩,
            ringing pairs mirrors held journal spans) :=
    ⟨_, _, _, _, _, _, _, rfl⟩
  rw [Run.write_eq]
  exact Run.errand_exhausted opened
    (Run.fireAll_exhausted (pair_exhausted depth ⟨pairs, mirrors, held, journal, spans, rfl⟩))

end LiveBinding
