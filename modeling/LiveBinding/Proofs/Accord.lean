/-
# LiveBinding.Proofs.Accord -- kept and stored values never drift apart

Whenever a listener is called and whenever a call has returned, every computed property
that is not virtual has the value it keeps in the store of its model as well, and under
the name of a virtual one the store has what it had when the property was bound
(`computed_in_accord`).

Every way to change a model keeps it so: it is the law of models of which `Trail` says
that a run keeps to it, but for the plan, which changes with each binding.
-/
import Mathlib
import LiveBinding.Proofs.Run.Rows

namespace LiveBinding

set_option autoImplicit false

variable {σ : Type}

/-! ## Worlds in accord -/

namespace World

variable {plan : Ref .model → List (String × Definition σ) → Attributes → Prop}

abbrev IsAsPlanned (plan : Ref .model → List (String × Definition σ) → Attributes → Prop) :
    World σ → Prop :=
  Rows fun model m => m.IsAsPlanned (plan model)

/-- What the code can be asked for: definitions that are orderly are all that is planned. -/
def Orderly (plan : Ref .model → List (String × Definition σ) → Attributes → Prop) : Prop :=
  ∀ model definitions bound, plan model definitions bound → Definition.AreOrderly definitions

theorem rowLaw_isAsPlanned (orderly : Orderly plan) :
    RowLaw fun model m => m.IsAsPlanned (plan model) where
  bare none := Or.inl none
  written planned aside := planned.write (aside (planned.mapsAside (orderly _)))
  adopted value planned found := planned.adopt (orderly _) found value

/-- With its first values a model that was bound as planned is in accord. -/
theorem isAsPlanned_first {model : Ref .model} {definitions : List (String × Definition σ)}
    {m : Model σ} (planned : plan model definitions m.store)
    (orderly : Definition.AreOrderly definitions) (realizes : m.Realizes definitions) :
    Model.IsAsPlanned (plan model) { m with store := (m.store.apply m.initialWrites).1 } :=
  Or.inr ⟨definitions, m.store, planned, (Model.sameShape_store _ m).realizes realizes,
    Model.inAccord_first (realizes.distinct orderly)⟩

end World

/-! ## Runs -/

/-- Of these moments, the last at which properties of the model were to be bound: to which
definitions, and what the model stored then. -/
def LastBound (past : List (Moment σ)) (model : Ref .model)
    (definitions : List (String × Definition σ)) (bound : Attributes) : Prop :=
  ∃ earlier s later m, past = earlier ++ ⟨.making (.bindComputed model definitions), s⟩ :: later ∧
    s.world.models.get? model = some m ∧ m.store = bound ∧
    ∀ n ∈ later, ∀ others, n.point ≠ .making (.bindComputed model others)

def Moment.IsOrderly (m : Moment σ) : Prop :=
  ∀ model definitions, m.point = .making (.bindComputed model definitions) →
    Definition.AreOrderly definitions

namespace LastBound

variable {past : List (Moment σ)} {model : Ref .model}
  {definitions : List (String × Definition σ)} {bound : Attributes} {m : Moment σ}

theorem concat (last : LastBound past model definitions bound)
    (other : ∀ others, m.point ≠ .making (.bindComputed model others)) :
    LastBound (past ++ [m]) model definitions bound := by
  obtain ⟨earlier, s, later, row, rfl, present, stored, none⟩ := last
  refine ⟨earlier, s, later ++ [m], row, by simp, present, stored, fun n listed => ?_⟩
  rcases List.mem_append.mp listed with old | new
  · exact none n old
  · rw [List.mem_singleton.mp new]
    exact other

theorem of_concat (last : LastBound (past ++ [m]) model definitions bound)
    (other : ∀ others, m.point ≠ .making (.bindComputed model others)) :
    LastBound past model definitions bound := by
  obtain ⟨earlier, s, later, row, split, present, stored, none⟩ := last
  rcases List.eq_nil_or_concat later with rfl | ⟨later, n, rfl⟩
  · obtain ⟨-, same⟩ := List.append_inj' split rfl
    obtain rfl := List.singleton_inj.mp same
    exact absurd rfl (other definitions)
  · rw [List.concat_eq_append, ← List.cons_append, ← List.append_assoc] at split
    obtain ⟨rfl, -⟩ := List.append_inj' split rfl
    refine ⟨earlier, s, later, row, rfl, present, stored, fun n' listed => ?_⟩
    exact none n' (by simp [listed])

theorem orderly (last : LastBound past model definitions bound)
    (all : ∀ m ∈ past, m.IsOrderly) : Definition.AreOrderly definitions := by
  obtain ⟨earlier, s, later, row, rfl, -⟩ := last
  exact all _ (List.mem_append_right _ List.mem_cons_self) model definitions rfl

end LastBound

namespace Trail

/-- The moments before the call that is awaited, if one is. -/
def settled (past : List (Moment σ)) : Option (Call σ) → List (Moment σ)
  | none => past
  | some _ => past.dropLast

variable {start s : State σ} {past : List (Moment σ)} {awaited : Option (Call σ)}

/-- Wherever a run gets, the models are as they were last bound. -/
theorem asPlanned (bare : ∀ model m, start.world.models.get? model = some m → m.properties = [])
    (trail : Trail start past awaited s) (orderly : ∀ m ∈ past, m.IsOrderly) :
    s.world.IsAsPlanned (LastBound (settled past awaited)) := by
  have shorter : ∀ {past : List (Moment σ)} {m : Moment σ}, (∀ m' ∈ past ++ [m], m'.IsOrderly) →
      ∀ m' ∈ past, m'.IsOrderly := fun all m' listed => all m' (List.mem_append_left _ listed)
  have lawful : ∀ {past : List (Moment σ)}, (∀ m ∈ past, m.IsOrderly) → World.RowLaw
      fun model row => Model.IsAsPlanned (LastBound past model) row :=
    fun all => World.rowLaw_isAsPlanned fun _ _ _ last => last.orderly all
  -- another moment is passed, at which nothing is to be bound
  have passed : ∀ {w w' : World σ} {past : List (Moment σ)} {m : Moment σ},
      w'.models = w.models → (∀ model others, m.point ≠ .making (.bindComputed model others)) →
      w.IsAsPlanned (LastBound past) → w'.IsAsPlanned (LastBound (past ++ [m])) := by
    intro w w' past m same other planned model row present
    rw [same] at present
    exact (planned model row present).mono fun _ _ last => last.concat (other model)
  induction trail with
  | start => exact fun model m present => Or.inl (bare model m present)
  | noted _ _ _ ih => exact ih orderly
  | changed _ _ ih => exact ih orderly
  | @listened _ s _ document element callback ih =>
      exact World.carries_of_models (World.tables_listen document element _ s.world).2.1 (ih orderly)
  | @subscribed _ s _ hub event callback ih =>
      exact passed (World.tables_subscribe hub event _ s.world).1 nofun (ih (shorter orderly))
  | making _ call ih =>
      rw [settled, List.dropLast_concat]
      exact ih (shorter orderly)
  | answered trail quiet performed ih =>
      obtain ⟨before, rfl, -⟩ := trail.awaits
      have planned := ih (shorter orderly)
      rw [settled, List.dropLast_concat] at planned
      refine passed rfl nofun (passed rfl ?_ (Run.upholds_perform
        (lawful (shorter (shorter orderly))).abiding quiet
        performed planned))
      rintro model others ⟨⟩
      cases quiet
  | @opened _ s t call opening ended trail opens worked ih =>
      obtain ⟨before, rfl, -⟩ := trail.awaits
      have planned := ih orderly
      rw [settled, List.dropLast_concat] at planned
      by_cases binds : ∃ model definitions, call = .bindComputed model definitions
      · obtain ⟨model, definitions, rfl⟩ := binds
        cases opens
        have others : ∀ other row, other ≠ model → s.world.models.get? other = some row →
            Model.IsAsPlanned (LastBound (before ++ [⟨.making (.bindComputed model definitions), s⟩])
              other) row := fun other row distinct present =>
          (planned other row present).mono
            fun _ _ last => last.concat fun others same => distinct (by cases same; rfl)
        have bound := Run.rows_bindComputed (lawful orderly) others
          fun row stored built _ => World.isAsPlanned_first ?_
            (orderly _ (List.mem_append_right _ List.mem_cons_self) model definitions rfl) built.realizes
        · rwa [worked] at bound
        · obtain ⟨row', present, same⟩ := Option.map_eq_some_iff.mp stored
          exact ⟨before, s, [], row', rfl, present, same, fun _ none => absurd none List.not_mem_nil⟩
      · have other : ∀ model definitions, call ≠ .bindComputed model definitions :=
          fun model definitions same => binds ⟨model, definitions, same⟩
        have upheld := Run.upholds_opening (s := s) (lawful (shorter orderly)).abiding opens other
          planned
        rw [worked] at upheld
        exact passed rfl (fun model others same => other model others (by cases same; rfl)) upheld
  | made _ opens answer ih => exact passed rfl nofun (ih (shorter orderly))
  | dispatching _ signal ih => exact passed rfl nofun (ih (shorter orderly))
  | calling _ dispatched listed registered ih => exact passed rfl nofun (ih (shorter orderly))
  | @reacted _ s _ _ _ _ _ _ opens worked ih =>
      have upheld := Run.upholds_reaction (s := s) (lawful orderly).abiding opens (ih orderly)
      rwa [worked] at upheld
  | closed _ closing ih =>
      cases closing with
      | release handle => exact World.carries_release handle _ (ih orderly)
      | resetSpans spans => exact ih orderly

end Trail

/-- What a client finds of computed properties where these moments are past. -/
structure World.InAccord (past : List (Moment σ)) (w : World σ) : Prop where
  read : ∀ model m, w.models.get? model = some m → ∀ p ∈ m.properties, m.read p.name = p.value
  stored : ∀ model m, w.models.get? model = some m → ∀ p ∈ m.properties, p.isVirtual = false →
    Attributes.Has p.name (m.read p.name) m.store
  untouched : ∀ model m, w.models.get? model = some m → ∀ p ∈ m.properties, p.isVirtual = true →
    ∃ definitions bound, LastBound past model definitions bound ∧
      p.name ∈ definitions.map (·.1) ∧ Fields.get? p.name m.store = Fields.get? p.name bound

theorem World.IsAsPlanned.inAccord {past : List (Moment σ)} {w : World σ}
    (planned : w.IsAsPlanned (LastBound past)) (orderly : ∀ m ∈ past, m.IsOrderly) :
    w.InAccord past := by
  have rows : ∀ model m, w.models.get? model = some m → ∀ p ∈ m.properties,
      m.read p.name = p.value ∧ ∃ definitions bound, LastBound past model definitions bound ∧
        m.Realizes definitions ∧ m.InAccord bound := by
    intro model m present p listed
    rcases planned model m present with none | ⟨definitions, bound, last, realizes, accord⟩
    · rw [none] at listed
      cases listed
    · have distinct := realizes.distinct (last.orderly orderly)
      exact ⟨Model.read_of_property? (Model.property?_of_mem distinct listed), definitions, bound,
        last, realizes, accord⟩
  refine ⟨fun model m present p listed => (rows model m present p listed).1, ?_, ?_⟩
  · intro model m present p listed real
    obtain ⟨read, definitions, bound, -, -, accord⟩ := rows model m present p listed
    rw [read]
    exact accord.stored p listed real
  · intro model m present p listed virtual
    obtain ⟨-, definitions, bound, last, realizes, accord⟩ := rows model m present p listed
    refine ⟨definitions, bound, last, ?_, accord.untouched p listed virtual⟩
    rw [← realizes.names]
    exact List.mem_map_of_mem listed

/-- Whatever a client does, as long as what it binds is orderly: at every moment of the run
and at its end, what a computed property keeps is what it reads as, and is stored as well,
unless it is virtual.  Then what is stored under its name, if anything, is what was stored
when it was bound. -/
theorem computed_in_accord (depth : Nat) (program : Program σ) (client : σ)
    (orderly : ∀ m ∈ Run.moments depth program ⟨.empty, [], client⟩, m.IsOrderly) :
    (∀ before m after, Run.moments depth program ⟨.empty, [], client⟩ = before ++ m :: after →
      m.state.world.InAccord before) ∧
    ((Run.run depth program).result ⟨.empty, [], client⟩).2.world.InAccord
      (Run.moments depth program ⟨.empty, [], client⟩) := by
  have bare : ∀ model m, (State.world (σ := σ) ⟨.empty, [], client⟩).models.get? model = some m →
      m.properties = [] := by
    intro model m present
    rw [show (State.world (σ := σ) ⟨.empty, [], client⟩).models = .empty from rfl,
      Table.get?_empty] at present
    cases present
  have trail := Run.trail_moments depth program ⟨.empty, [], client⟩
  refine ⟨fun before m after split => ?_, (trail.asPlanned bare orderly).inAccord orderly⟩
  have earlier : ∀ n ∈ before ++ [m], n.IsOrderly := fun n listed => orderly n (by
    rw [split]
    rcases List.mem_append.mp listed with old | new
    · exact List.mem_append_left _ old
    · exact List.mem_append_right _ (by rw [List.mem_singleton.mp new]; exact List.mem_cons_self))
  refine World.IsAsPlanned.inAccord ?_ fun n listed => earlier n (List.mem_append_left _ listed)
  have planned := (trail.upTo split).asPlanned bare earlier
  -- a call that is about to be made has changed nothing, and no other moment binds anything
  unfold Moment.awaited at planned
  split at planned
  · rwa [Trail.settled, List.dropLast_concat] at planned
  · rename_i other
    intro model row present
    exact (planned model row present).mono fun _ _ last => last.of_concat fun _ => other _

/-! ## A run -/

def Moment.definitions? (m : Moment σ) : Option (List (String × Definition σ)) :=
  match m.point with
  | .making (.bindComputed _ definitions) => some definitions
  | _ => none

theorem Moment.isOrderly_of_mem {moments : List (Moment σ)}
    (orderly : ∀ definitions ∈ moments.filterMap Moment.definitions?,
      Definition.AreOrderly definitions) : ∀ m ∈ moments, m.IsOrderly :=
  fun m listed model definitions binds =>
    orderly definitions (List.mem_filterMap.mpr ⟨m, listed, by rw [Moment.definitions?, binds]⟩)

namespace Sample

def record : List (String × Definition Unit) :=
  [("full", ⟨some (.get "first"), some fun value _ => (.ok [("first", value)], ()), true, []⟩),
    ("tags", ⟨some (.read none true "first" fun value => .done (.list [value])), none, false, []⟩)]

/-- A listener renames whoever is written, in the middle of the write. -/
def keeper : Program Unit :=
  .call (.openModel [("first", .text "Ada"), ("full", .int 0)]) fun (model : Ref .model) =>
    .call (.bindComputed model record) fun _ =>
      .subscribe ⟨0⟩ (changeOf "tags")
        (fun _ => .call (.write model [("first", .text "Eve")]) fun _ => .done) fun _ =>
        .call (.write model [("full", .text "Bob")]) fun _ => .done

theorem record_orderly : Definition.AreOrderly record where
  distinct := by decide
  aside := by
    intro entry listed setter given value client mapped client' maps name among
    rcases List.mem_cons.mp listed with rfl | listed
    · cases given
      cases maps
      obtain rfl := List.mem_singleton.mp among
      simp [record]
    · rw [List.mem_singleton.mp listed] at given
      cases given

def kept : State Unit :=
  ((Run.run 6 keeper).result ⟨.empty, [], ()⟩).2

end Sample

open Sample in
/-- In the end the model reads as it was renamed, the list is stored, and the number that was
stored under the virtual name is still there. -/
theorem computed_in_accord_keeper :
    kept.world.InAccord (Run.moments 6 keeper ⟨.empty, [], ()⟩) ∧
      (kept.world.read ⟨0⟩ "full").displayText = "Eve" ∧
      ((kept.world.models.get? ⟨0⟩).map fun m => Json.same (.object m.store)
        (.object [("first", .text "Eve"), ("full", .int 0), ("tags", .list [.text "Eve"])])) =
        some true := by
  have only : (Run.moments 6 keeper ⟨.empty, [], ()⟩).filterMap Moment.definitions? = [record] := by
    cbv
  have orderly : ∀ m ∈ Run.moments 6 keeper ⟨.empty, [], ()⟩, m.IsOrderly := by
    refine Moment.isOrderly_of_mem fun definitions among => ?_
    rw [only] at among
    rw [List.mem_singleton.mp among]
    exact record_orderly
  have ends := (computed_in_accord 6 keeper () orderly).2
  refine ⟨?_, by decide +kernel, by decide +kernel⟩
  rw [kept]
  exact ends

end LiveBinding
