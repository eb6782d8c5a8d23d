/-
# LiveBinding.Proofs.Routing -- what a write stores, and what a rejected one leaves

An entry of a write contributes attributes: itself, or what the setter of its property maps
it to (`Model.contribution`).  Routing takes one contribution after another
(`Run.result_route_cons`), so what is stored overrides from left to right: each name once,
with the value that the last contributor gives it (`Overrides`).

Nothing is stored before everything is routed.  The first entry that contributes nothing,
because its property has no setter or its setter fails, rejects the write, and but for the
failure in the journal the world is then as it was (`Run.write_routes`).
-/
import LiveBinding.Proofs.Fields
import LiveBinding.Proofs.Follower.Refresh
import LiveBinding.Proofs.Run.Settle

namespace LiveBinding

set_option autoImplicit false

variable {σ : Type}

/-! ## Overriding -/

/-- The attributes are the given ones, each name once, in the order in which the names are
given first, with the value that is given last. -/
structure Overrides (given pending : Attributes) : Prop where
  names : Fields.keys pending = (Fields.keys given).eraseDups
  values : ∀ name, Fields.get? name pending = Fields.get? name given.reverse

theorem overrides_ofEntries (given : Attributes) : Overrides given (Fields.ofEntries given) :=
  ⟨Fields.keys_ofEntries given, Fields.get?_ofEntries given⟩

/-- What is stored under each name: what was written, unless that is the same as data as
what is there already. -/
theorem Attributes.get?_apply {pending : Attributes} (once : (Fields.keys pending).Nodup)
    (store : Attributes) (name : String) :
    Fields.get? name (apply store pending).1 =
      match Fields.get? name pending with
      | some value => if holds name value store then Fields.get? name store else some value
      | none => Fields.get? name store := by
  induction pending generalizing store with
  | nil => rfl
  | cons entry rest ih =>
      obtain ⟨key, value⟩ := entry
      obtain ⟨unrepeated, onceRest⟩ := List.nodup_cons.mp once
      by_cases same : key = name
      · subst same
        have later : ∀ store' : Attributes,
            Fields.get? key (apply store' rest).1 = Fields.get? key store' := fun _ =>
          get?_apply_of_unwritten unrepeated
        rw [apply, Fields.get?, if_pos rfl]
        by_cases held : holds key value store = true
        · simp only [held, if_true]
          exact later store
        · simp only [held, Bool.false_eq_true, if_false]
          rw [later, Fields.get?_set_self]
      · have other : ∀ value', holds name value' (Fields.set key value store) =
            holds name value' store := fun _ =>
          holds_congr (Fields.get?_set_ne _ _ (Ne.symm same))
        rw [apply, Fields.get?, if_neg same]
        split
        · exact ih onceRest store
        · rw [ih onceRest, Fields.get?_set_ne _ _ (Ne.symm same)]
          simp only [other]

/-! ## Contributions -/

namespace Model

variable {m : Model σ} {client client' : σ} {attributes before rest : Attributes}
  {given : List Attributes}

/-- What an entry of a write contributes, with what becomes of the client: itself unless it
is computed, and what its setter maps it to if it is. -/
def contribution (m : Model σ) (entry : String × Json) (client : σ) :
    Except Error Attributes × σ :=
  match m.property? entry.1 with
  | none => (.ok [entry], client)
  | some property =>
      match property.setter with
      | none => (.error (.noSetter entry.1), client)
      | some setter =>
          ((setter entry.2 client).1.mapError (.computation entry.1), (setter entry.2 client).2)

/-- Each entry contributes something, one after another. -/
inductive Contribute (m : Model σ) : σ → Attributes → List Attributes → σ → Prop
  | nothing (client : σ) : Contribute m client [] [] client
  | next {client after last : σ} {entry : String × Json} {rest contributed : Attributes}
      {given : List Attributes} :
      m.contribution entry client = (.ok contributed, after) →
      Contribute m after rest given last →
      Contribute m client (entry :: rest) (contributed :: given) last

/-- An entry contributes nothing, for that reason, and all entries before it do. -/
def Refuses (m : Model σ) (client : σ) (attributes : Attributes) (error : Error) (last : σ) :
    Prop :=
  ∃ before entry rest given between, attributes = before ++ entry :: rest ∧
    m.Contribute client before given between ∧ m.contribution entry between = (.error error, last)

/-- Some entry is computed, and its setter maps it to attributes among which is this one. -/
def Mapped (m : Model σ) (attributes : Attributes) (pair : String × Json) : Prop :=
  ∃ entry ∈ attributes, ∃ property setter client after contributed,
    m.property? entry.1 = some property ∧ property.setter = some setter ∧
      setter entry.2 client = (.ok contributed, after) ∧ pair ∈ contributed

/-- Entries all contribute, or one of them is the first that does not. -/
theorem contribute_or_refuses (m : Model σ) (client : σ) (attributes : Attributes) :
    (∃ given last, m.Contribute client attributes given last) ∨
      ∃ error last, m.Refuses client attributes error last := by
  induction attributes generalizing client with
  | nil => exact .inl ⟨[], client, .nothing client⟩
  | cons entry rest ih =>
      rcases here : m.contribution entry client with ⟨error | contributed, after⟩
      · exact .inr ⟨error, after, [], entry, rest, [], client, rfl, .nothing client, here⟩
      · rcases ih after with ⟨given, last, contribute⟩ | ⟨error, last, before, first, later, given,
          between, rfl, contribute, refused⟩
        · exact .inl ⟨contributed :: given, last, .next here contribute⟩
        · exact .inr ⟨error, last, entry :: before, first, later, contributed :: given, between,
            rfl, .next here contribute, refused⟩

/-- A computed attribute is contributed by a setter only. -/
theorem mapped_of_contribution {entry pair : String × Json} {contributed : Attributes}
    (here : m.contribution entry client = (.ok contributed, client'))
    (among : pair ∈ contributed) (computed : m.isComputed pair.1 = true) :
    m.Mapped [entry] pair := by
  rw [contribution] at here
  split at here
  · rename_i plain
    cases here
    rw [List.mem_singleton.mp among, isComputed, plain] at computed
    cases computed
  · rename_i property found
    split at here
    · cases here
    · rename_i setter has
      rcases answer : setter entry.2 client with ⟨reason | mapped, after⟩
      · rw [answer] at here
        cases here
      · rw [answer] at here
        cases here
        exact ⟨entry, List.mem_singleton_self _, property, setter, client, _, _, found, has,
          answer, among⟩

theorem Mapped.mono {more : Attributes} {pair : String × Json}
    (mapped : m.Mapped attributes pair) (sub : attributes ⊆ more) :
    m.Mapped more pair := by
  obtain ⟨entry, among, how⟩ := mapped
  exact ⟨entry, sub among, how⟩

theorem Contribute.mapped (contribute : m.Contribute client attributes given client')
    {pair : String × Json} (among : pair ∈ given.flatten)
    (computed : m.isComputed pair.1 = true) : m.Mapped attributes pair := by
  induction contribute with
  | nothing => cases among
  | next here _ ih =>
      rw [List.flatten_cons, List.mem_append] at among
      rcases among with here_ | later
      · exact (mapped_of_contribution here here_ computed).mono
          (List.cons_subset_cons _ (List.nil_subset _))
      · exact (ih later).mono (List.subset_cons_self _ _)

end Model

/-! ## Routing -/

namespace Run

variable {model : Ref .model} {m : Model σ} {s : State σ} {client : σ}
  {attributes before rest routed : Attributes} {given : List Attributes} {error : Error}

theorem result_applySetter (name : String) (setter : Setter σ) (value : Json) (s : State σ) :
    (applySetter name setter value).result s =
      match setter value s.client with
      | (.ok mapped, client) => (.ok mapped, { s with client := client })
      | (.error reason, client) =>
          (.error (.failed (.computation name reason)),
            { s with client := client }.alter (.happen (.failed (.computation name reason)))) := by
  rw [applySetter, result_bind_ok (result_get s), result_bind_ok (result_modify _ s)]
  rcases setter value s.client with ⟨reason | mapped, client⟩ <;> rfl

/-- An entry is routed as what it contributes. -/
theorem result_route_cons (present : s.world.models.get? model = some m) (entry : String × Json)
    (rest routed : Attributes) :
    (route model (entry :: rest) routed).result s =
      match m.contribution entry s.client with
      | (.ok contributed, client) =>
          (route model rest (Fields.setAll contributed routed)).result { s with client := client }
      | (.error error, client) =>
          (.error (.failed error), { s with client := client }.alter (.happen (.failed error))) := by
  obtain ⟨name, value⟩ := entry
  rw [route, result_world_bind, present, Option.bind_some, Model.contribution]
  rcases m.property? name with _ | ⟨_, _, setter, _, _, _, _⟩
  · rfl
  rcases setter with _ | setter
  · rfl
  simp only [result_bind, result_applySetter]
  rcases setter value s.client with ⟨reason | mapped, client⟩ <;> rfl

/-- Entries that all contribute are routed, before whatever comes after them. -/
theorem result_route_append (present : s.world.models.get? model = some m)
    (contribute : m.Contribute s.client before given client) (rest routed : Attributes) :
    (route model (before ++ rest) routed).result s =
      (route model rest (Fields.setAll given.flatten routed)).result { s with client := client } := by
  induction before generalizing s given routed with
  | nil =>
      cases contribute
      rfl
  | cons entry before ih =>
      cases contribute with
      | @next _ after _ _ _ _ _ here contribute =>
          rw [List.cons_append, result_route_cons present, here, List.flatten_cons,
            Fields.setAll_append]
          exact ih (s := { s with client := after }) present contribute _

theorem result_route (present : s.world.models.get? model = some m)
    (contribute : m.Contribute s.client attributes given client) :
    (route model attributes []).result s =
      (.ok (Fields.ofEntries given.flatten), { s with client := client }) := by
  have routed := result_route_append present contribute [] []
  rwa [List.append_nil] at routed

theorem result_route_refused (present : s.world.models.get? model = some m)
    (refuses : m.Refuses s.client attributes error client) :
    (route model attributes []).result s =
      (.error (.failed error), { s with client := client }.alter (.happen (.failed error))) := by
  obtain ⟨before, entry, rest, given, between, rfl, contribute, refused⟩ := refuses
  rw [result_route_append present contribute,
    result_route_cons (s := { s with client := between }) present, refused]

/-! ## Writing -/

/-- A write overrides from left to right, and one that is rejected changes nothing.

If every entry contributes something, what is stored is what the last contributor gives,
for each name: itself, if the entry is plain, and what its setter maps it to, if it is
computed; a computed name is stored only if some setter gives it.  All that is stored before
the changes are announced.

If some entry does not, because its property has no setter or its setter fails, the first
one decides how the write fails.  Nothing is dispatched then, and but for the failure in the
journal the world is as it was.

One of the two is so. -/
theorem write_routes (fire : Fire σ) (attributes : Attributes)
    (present : s.world.models.get? model = some m) (kept : s.world.keepsModel model = true) :
    (∀ given client, m.Contribute s.client attributes given client →
      ∃ pending, Overrides given.flatten pending ∧
        (∀ stored ∈ pending, m.isComputed stored.1 = true → m.Mapped attributes stored) ∧
        (∀ name, Fields.get? name (m.store.apply pending).1 =
          match Fields.get? name pending with
          | some value =>
              if m.store.holds name value then Fields.get? name m.store else some value
          | none => Fields.get? name m.store) ∧
        (write fire model attributes).result s =
          ((announce fire m.hub (m.store.apply pending).2).lastly (.release (.model model))).result
            ⟨(s.world.hold (.model model)).put model
              { m with store := (m.store.apply pending).1 }, s.callbacks, client⟩) ∧
    (∀ error client, m.Refuses s.client attributes error client →
      (write fire model attributes).result s =
        (.error (.failed error), ⟨s.world.happen (.failed error), s.callbacks, client⟩)) ∧
    ((∃ given client, m.Contribute s.client attributes given client) ∨
      ∃ error client, m.Refuses s.client attributes error client) := by
  have holding : (s.alter (.hold (.model model))).world.models.get? model = some m := present
  refine ⟨fun given client contribute => ?_, fun error client refuses => ?_,
    m.contribute_or_refuses s.client attributes⟩
  · have once : (Fields.keys (Fields.ofEntries given.flatten)).Nodup := by
      rw [Fields.keys_ofEntries]
      exact Fields.nodup_eraseDups _
    refine ⟨Fields.ofEntries given.flatten, overrides_ofEntries _, fun stored among computed => ?_,
      Attributes.get?_apply once m.store, ?_⟩
    · exact contribute.mapped (Fields.mem_ofEntries among) computed
    · rw [write, result_keeping, result_lastly, result_bind_ok (result_route holding contribute),
        result_writeStore (s := { s.alter (.hold (.model model)) with client := client }) holding]
      rfl
  · rw [write, result_keeping, result_lastly,
      result_bind_error (result_route_refused holding refuses)]
    have freed : ((s.world.hold (.model model)).happen (.failed error)).release (.model model) =
        s.world.happen (.failed error) :=
      World.release_kept rfl kept
    simp [State.alter, freed]

end Run

namespace Sample

/-- A property that is there to be written. -/
def written (name : String) (setter : Option (Setter Nat)) : Property Nat :=
  ⟨name, .done .null, setter, true, .null, [], []⟩

/-- A setter that spreads a value over two attributes and counts. -/
def spread : Setter Nat :=
  fun value calls => (.ok [("y", value), ("x", .text "spread")], calls + 1)

/-- A setter that fails, and counts nevertheless. -/
def brittle : Setter Nat :=
  fun _ calls => (.error "brittle", calls + 1)

/-- A model with properties that can be written, and cannot. -/
def routed : Model Nat :=
  ⟨⟨0⟩, [("x", .text "0")],
    [written "both" (some spread), written "bad" (some brittle), written "fixed" none]⟩

def routing : State Nat :=
  ⟨((World.empty.openModel []).2).put ⟨0⟩ routed, [], 0⟩

end Sample

open Sample in
/-- A setter overrides the plain entry before it.  A setter that fails spoils what comes
before it, and what has no setter after it does not matter. -/
theorem write_routes_both :
    (∃ pending,
      Overrides [("x", .text "1"), ("y", .text "2"), ("x", .text "spread"), ("z", .text "3")] pending ∧
        (Run.write (Run.dispatch 2) ⟨0⟩
            [("x", .text "1"), ("both", .text "2"), ("z", .text "3")]).result routing =
          ((Run.announce (Run.dispatch 2) ⟨0⟩ (routed.store.apply pending).2).lastly
            (.release (.model ⟨0⟩))).result
              ⟨(routing.world.hold (.model ⟨0⟩)).put ⟨0⟩
                { routed with store := (routed.store.apply pending).1 }, [], 1⟩) ∧
      (Run.write (Run.dispatch 2) ⟨0⟩
          [("x", .text "1"), ("both", .text "2"), ("bad", .null), ("fixed", .null)]).result routing =
        (.error (.failed (.computation "bad" "brittle")),
          ⟨routing.world.happen (.failed (.computation "bad" "brittle")), [], 2⟩) := by
  have present : routing.world.models.get? ⟨0⟩ = some routed := rfl
  have kept : routing.world.keepsModel ⟨0⟩ = true := by decide
  refine ⟨?_, ?_⟩
  · have contribute : routed.Contribute 0 [("x", .text "1"), ("both", .text "2"), ("z", .text "3")]
        [[("x", .text "1")], [("y", .text "2"), ("x", .text "spread")], [("z", .text "3")]] 1 :=
      .next rfl (.next rfl (.next rfl (.nothing 1)))
    obtain ⟨pending, overrides, -, -, ended⟩ :=
      (Run.write_routes (Run.dispatch 2) _ present kept).1 _ _ contribute
    exact ⟨pending, overrides, ended⟩
  · have before : routed.Contribute 0 [("x", .text "1"), ("both", .text "2")]
        [[("x", .text "1")], [("y", .text "2"), ("x", .text "spread")]] 1 :=
      .next rfl (.next rfl (.nothing 1))
    exact (Run.write_routes (Run.dispatch 2) _ present kept).2.1 _ _
      ⟨_, ("bad", .null), [("fixed", .null)], _, 1, rfl, before, rfl⟩

end LiveBinding
