/-
# LiveBinding.Proofs.World.Listing -- who is listed on hubs

All listeners of all hubs, each as the subscription by which its owner knows it together
with what it does (`listed`).  Subscribing adds one entry, and ending subscriptions takes
away those that have their keys, and no others.  A key is a hub with an identifier; on
hubs that are in order no two listeners have the same one (`nodup_listed`).
-/
import LiveBinding.Proofs.World.Lasts

namespace LiveBinding

set_option autoImplicit false

variable {σ : Type}

/-! ## Tables -/

namespace Table

universe u

variable {kind : Kind} {α : Type u} {t : Table kind α} {r : Ref kind} {value : α}

theorem modify_append (before after : List α) (a : α) (f : α → α) :
    (before ++ a :: after).modify before.length f = before ++ f a :: after := by
  induction before with
  | nil => rfl
  | cons first rest ih => exact congrArg (first :: ·) ih

/-- Tables that have given out the same references and have the same rows are the same. -/
theorem eq_of_get? {t t' : Table kind α} (fresh : t.fresh = t'.fresh)
    (rows : ∀ r, t.get? r = t'.get? r) : t = t' := by
  obtain ⟨xs⟩ := t
  obtain ⟨ys⟩ := t'
  have long : xs.length = ys.length := congrArg Ref.index fresh
  refine congrArg Table.mk (List.ext_getElem long fun i here there => ?_)
  have same := rows ⟨i⟩
  simpa [get?, here, there] using same

/-- The row of a reference has its place among all; changing or erasing it leaves the others
where they are. -/
theorem entries_split (present : t.get? r = some value) :
    ∃ before after, t.entries = before ++ (r, value) :: after ∧
      (∀ f : α → α, (t.update r f).entries = before ++ (r, f value) :: after) ∧
      (t.erase r).entries = before ++ after ∧
      (∀ entry ∈ before, entry.1 ≠ r) ∧ ∀ entry ∈ after, entry.1 ≠ r := by
  obtain ⟨rows⟩ := t
  obtain ⟨index⟩ := r
  have there : rows[index]? = some (some value) := by
    rcases row : rows[index]? with _ | _ | found
    · simp [get?, row] at present
    · simp [get?, row] at present
    · simpa [get?, row] using present
  obtain ⟨inside, here⟩ := List.getElem?_eq_some_iff.mp there
  have split : rows = rows.take index ++ some value :: rows.drop (index + 1) := by
    rw [← here, List.getElem_cons_drop, List.take_append_drop]
  have long : (rows.take index).length = index := List.length_take_of_le (Nat.le_of_lt inside)
  generalize rows.take index = before at split long
  generalize rows.drop (index + 1) = after at split
  subst split long
  let named : Option α × Nat → Option (Ref kind × α) :=
    fun row => row.1.map fun value => (⟨row.2⟩, value)
  refine ⟨before.zipIdx.filterMap named, (after.zipIdx (before.length + 1)).filterMap named,
    ?_, fun f => ?_, ?_, ?_, ?_⟩
  · simp [entries, List.zipIdx_append, named]
  · simp [entries, update, modify_append, List.zipIdx_append, named]
  · simp [entries, erase, modify_append, List.zipIdx_append, named]
  · rintro _ listed here
    obtain ⟨⟨row, at_⟩, on, same⟩ := List.mem_filterMap.mp listed
    obtain ⟨_, -, rfl⟩ := Option.map_eq_some_iff.mp same
    cases here
    have bound := List.snd_lt_of_mem_zipIdx on
    simp at bound
  · rintro _ listed here
    obtain ⟨⟨row, at_⟩, on, same⟩ := List.mem_filterMap.mp listed
    obtain ⟨_, -, rfl⟩ := Option.map_eq_some_iff.mp same
    cases here
    exact absurd (List.le_snd_of_mem_zipIdx on) (Nat.not_succ_le_self _)

theorem entries_insert (t : Table kind α) (value : α) :
    (t.insert value).entries = t.entries ++ [(t.fresh, value)] := by
  simp [entries, insert, List.zipIdx_append, fresh]

theorem mem_entries : (r, value) ∈ t.entries ↔ t.get? r = some value := by
  constructor
  · intro listed
    obtain ⟨⟨row, at_⟩, on, same⟩ := List.mem_filterMap.mp listed
    obtain ⟨found, here, named⟩ := Option.map_eq_some_iff.mp same
    cases named
    dsimp only at here
    subst here
    rw [List.mem_zipIdx_iff_getElem?] at on
    rw [get?, on]
    rfl
  · intro present
    obtain ⟨before, after, split, -⟩ := entries_split present
    rw [split]
    exact List.mem_append_right _ List.mem_cons_self

/-- Rows are listed by ascending references. -/
theorem pairwise_entries (t : Table kind α) :
    t.entries.Pairwise fun row row' => row.1.index < row'.1.index := by
  have numbered : t.rows.zipIdx.Pairwise fun row row' => row.2 < row'.2 := by
    refine List.Pairwise.of_map (S := (· < ·)) Prod.snd (fun _ _ => id) ?_
    rw [List.zipIdx_map_snd]
    exact List.pairwise_lt_range'
  refine List.pairwise_filterMap.mpr (numbered.imp fun below a here b there => ?_)
  obtain ⟨_, -, rfl⟩ := Option.map_eq_some_iff.mp here
  obtain ⟨_, -, rfl⟩ := Option.map_eq_some_iff.mp there
  exact below

variable {β : Type u} {f : Ref kind → α → List β}

/-- What all rows come to, one after another. -/
def gather (f : Ref kind → α → List β) (t : Table kind α) : List β :=
  t.entries.flatMap fun row => f row.1 row.2

theorem gather_insert (f : Ref kind → α → List β) (t : Table kind α) (value : α) :
    (t.insert value).gather f = t.gather f ++ f t.fresh value := by
  rw [gather, entries_insert, List.flatMap_append, List.flatMap_singleton]
  rfl

theorem gather_split (f : Ref kind → α → List β) (present : t.get? r = some value) :
    ∃ before after, t.gather f = before ++ f r value ++ after ∧
      (∀ g : α → α, (t.update r g).gather f = before ++ f r (g value) ++ after) ∧
      (t.erase r).gather f = before ++ after ∧
      ∀ b ∈ before ++ after, ∃ other found, other ≠ r ∧ b ∈ f other found := by
  obtain ⟨before, after, split, changed, erased, others, othersThen⟩ := entries_split present
  refine ⟨before.flatMap fun row => f row.1 row.2, after.flatMap fun row => f row.1 row.2, ?_,
    fun g => ?_, ?_, fun b among => ?_⟩
  · rw [gather, split, List.flatMap_append, List.flatMap_cons, List.append_assoc]
  · rw [gather, changed, List.flatMap_append, List.flatMap_cons, List.append_assoc]
  · rw [gather, erased, List.flatMap_append]
  · rw [← List.flatMap_append] at among
    obtain ⟨row, on, here⟩ := List.mem_flatMap.mp among
    exact ⟨row.1, row.2, (List.mem_append.mp on).elim (others row) (othersThen row), here⟩

/-- What a row comes to can be told apart from the rest. -/
theorem gather_apart (f : Ref kind → α → List β) (present : t.get? r = some value) :
    ∃ rest, (t.gather f).Perm (f r value ++ rest) ∧
      (∀ g : α → α, ((t.update r g).gather f).Perm (f r (g value) ++ rest)) ∧
      ((t.erase r).gather f).Perm rest := by
  obtain ⟨before, after, split, changed, erased, -⟩ := gather_split f present
  have first : ∀ own : List β, (before ++ own ++ after).Perm (own ++ (before ++ after)) := by
    intro own
    rw [← List.append_assoc own]
    exact List.perm_append_comm.append_right after
  refine ⟨before ++ after, ?_, fun g => ?_, ?_⟩
  · rw [split]
    exact first _
  · rw [changed]
    exact first _
  · rw [erased]

theorem gather_update_of_eq {g : α → α} (same : ∀ value, t.get? r = some value → f r (g value) = f r value) :
    (t.update r g).gather f = t.gather f := by
  rcases present : t.get? r with _ | value
  · rw [update_of_none g present]
  · obtain ⟨before, after, split, changed, -⟩ := gather_split f present
    rw [split, changed, same value present]

theorem gather_congr {f g : Ref kind → α → List β}
    (same : ∀ r value, t.get? r = some value → f r value = g r value) : t.gather f = t.gather g :=
  List.flatMap_congr fun row on => same row.1 row.2 (mem_entries.mp on)

theorem map_filter_gather {γ : Type u} (g : β → γ) (keep : β → Bool) :
    ((t.gather f).filter keep).map g = t.gather fun r value => ((f r value).filter keep).map g := by
  rw [gather, List.filter_flatMap, List.map_flatMap]
  rfl

theorem mem_gather {b : β} : b ∈ t.gather f ↔ ∃ r value, t.get? r = some value ∧ b ∈ f r value := by
  rw [gather, List.mem_flatMap]
  constructor
  · rintro ⟨row, on, here⟩
    exact ⟨row.1, row.2, mem_entries.mp on, here⟩
  · rintro ⟨r, value, present, here⟩
    exact ⟨(r, value), mem_entries.mpr present, here⟩

end Table

/-! ## Listeners -/

/-- Where the listener of a subscription is found. -/
def Subscription.key (s : Subscription) : Ref .hub × Nat := (s.hub, s.id)

def Hub.listed (ref : Ref .hub) (hub : Hub) : List (Subscription × Reaction) :=
  hub.listeners.map fun l => (⟨ref, l.id, l.event⟩, l.reaction)

def listed (hubs : Hubs) : List (Subscription × Reaction) :=
  hubs.gather fun ref hub => hub.listed ref

variable {hubs : Hubs} {ref : Ref .hub} {hub : Hub}

theorem hub_of_mem_listed {e : Subscription × Reaction} (among : e ∈ hub.listed ref) :
    e.1.hub = ref := by
  obtain ⟨l, -, rfl⟩ := List.mem_map.mp among
  rfl

theorem mem_listed {s : Subscription} {reaction : Reaction} :
    (s, reaction) ∈ listed hubs ↔ Registered hubs s reaction := by
  rw [listed, Table.mem_gather]
  constructor
  · rintro ⟨ref, hub, present, on⟩
    obtain ⟨l, listens, same⟩ := List.mem_map.mp on
    cases same
    exact ⟨hub, present, listens⟩
  · rintro ⟨hub, present, listens⟩
    exact ⟨s.hub, hub, present, List.mem_map.mpr ⟨_, listens, rfl⟩⟩

/-- The listeners of a hub have their place among all. -/
theorem listed_split (present : hubs.get? ref = some hub) :
    ∃ before after, listed hubs = before ++ hub.listed ref ++ after ∧
      (∀ f : Hub → Hub, listed (hubs.update ref f) = before ++ (f hub).listed ref ++ after) ∧
      ∀ e ∈ before ++ after, e.1.hub ≠ ref := by
  obtain ⟨before, after, split, changed, -, others⟩ :=
    Table.gather_split (fun ref (hub : Hub) => hub.listed ref) present
  refine ⟨before, after, split, changed, fun e among => ?_⟩
  obtain ⟨other, found, distinct, here⟩ := others e among
  rwa [hub_of_mem_listed here]

/-- The listeners of one hub are those among all that listen to it. -/
theorem listed_of (present : hubs.get? ref = some hub) :
    (listed hubs).filter (·.1.hub = ref) = hub.listed ref := by
  obtain ⟨before, after, split, -, others⟩ := listed_split present
  rw [List.forall_mem_append] at others
  have none : ∀ rows : List (Subscription × Reaction), (∀ e ∈ rows, e.1.hub ≠ ref) →
      rows.filter (·.1.hub = ref) = [] := fun rows apart =>
    List.filter_eq_nil_iff.mpr fun e among => by simpa using apart e among
  have all : (hub.listed ref).filter (·.1.hub = ref) = hub.listed ref :=
    List.filter_eq_self.mpr fun e among => by simpa using hub_of_mem_listed among
  rw [split, List.filter_append, List.filter_append, none before others.1, none after others.2, all,
    List.nil_append, List.append_nil]

/-- No two listeners have the same key. -/
theorem nodup_listed (ordered : Ordered hubs) : ((listed hubs).map (·.1.key)).Nodup := by
  rw [listed, Table.gather, List.map_flatMap, List.nodup_flatMap]
  constructor
  · rintro ⟨ref, hub⟩ row
    have ids : (hub.listeners.map (·.id)).Nodup :=
      (List.pairwise_map.mpr (ordered ref hub (Table.mem_entries.mp row)).ascending).imp Nat.ne_of_lt
    rw [Hub.listed, List.map_map]
    rw [← List.nodup_map_iff (f := fun id : Nat => (ref, id)) fun _ _ same => by cases same; rfl,
      List.map_map] at ids
    exact ids
  · refine (Table.pairwise_entries hubs).imp fun below => ?_
    intro key here there
    obtain ⟨e, among, rfl⟩ := List.mem_map.mp here
    obtain ⟨e', among', same⟩ := List.mem_map.mp there
    have one : e'.1.hub = e.1.hub := congrArg Prod.fst same
    rw [hub_of_mem_listed among, hub_of_mem_listed among'] at one
    rw [one] at below
    exact Nat.lt_irrefl _ below

theorem listed_insert (hubs : Hubs) : listed (hubs.insert .empty) = listed hubs := by
  rw [listed, Table.gather_insert]
  exact List.append_nil _

theorem listed_subscribe (event : String) (reaction : Reaction)
    (present : hubs.get? ref = some hub) :
    (listed (hubs.update ref (Hub.subscribe event reaction))).Perm
      (listed hubs ++ [(⟨ref, hub.nextId, event⟩, reaction)]) := by
  obtain ⟨before, after, split, changed, -⟩ := listed_split present
  have one : (hub.subscribe event reaction).listed ref =
      hub.listed ref ++ [(⟨ref, hub.nextId, event⟩, reaction)] := by
    rw [Hub.listed, Hub.subscribe, List.map_append]
    rfl
  rw [split, changed, one, ← List.append_assoc, List.append_assoc, List.append_assoc _ after]
  exact List.perm_append_comm.append_left _

/-- Taking listeners off a hub. -/
theorem listed_filter (hubs : Hubs) (ref : Ref .hub) (keep : Listener → Bool) :
    listed (hubs.update ref fun hub => { hub with listeners := hub.listeners.filter keep }) =
      (listed hubs).filter fun e => e.1.hub ≠ ref || keep ⟨e.1.id, e.1.event, e.2⟩ := by
  rcases present : hubs.get? ref with _ | hub
  · rw [Table.update_of_none _ present]
    refine (List.filter_eq_self.mpr fun e among => ?_).symm
    obtain ⟨hub, there, -⟩ := mem_listed.mp among
    have other : e.1.hub ≠ ref := by
      rintro rfl
      rw [present] at there
      cases there
    simp [other]
  · obtain ⟨before, after, split, changed, others⟩ := listed_split present
    rw [List.forall_mem_append] at others
    have all : ∀ rows : List (Subscription × Reaction), (∀ e ∈ rows, e.1.hub ≠ ref) →
        rows.filter (fun e => e.1.hub ≠ ref || keep ⟨e.1.id, e.1.event, e.2⟩) = rows :=
      fun rows apart => List.filter_eq_self.mpr fun e among => by simp [apart e among]
    rw [split, changed, List.filter_append, List.filter_append, all before others.1,
      all after others.2]
    congr 2
    unfold Hub.listed
    rw [List.filter_map]
    congr 1
    exact List.filter_congr fun l _ => by simp

namespace World

theorem listed_cancelAll (ss : List Subscription) (w : World σ) :
    listed (w.cancelAll ss).hubs = (listed w.hubs).filter fun e => e.1.key ∉ ss.map (·.key) := by
  induction ss generalizing w with
  | nil => simp [cancelAll]
  | cons s rest ih =>
      have once : listed (w.cancel s).hubs = (listed w.hubs).filter fun e => e.1.key ≠ s.key := by
        rw [cancel]
        refine (listed_filter w.hubs s.hub fun l => l.id ≠ s.id).trans (List.filter_congr fun e _ => ?_)
        simp [Subscription.key, Prod.ext_iff, Decidable.imp_iff_not_or]
      have rest_ : listed (w.cancelAll (s :: rest)).hubs = _ := ih (w.cancel s)
      rw [rest_, once, List.filter_filter]
      refine List.filter_congr fun e _ => ?_
      simp [not_or, Bool.and_comm]

end World

end LiveBinding
