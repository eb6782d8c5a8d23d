/-
# LiveBinding.Proofs.Run.Lawful -- the models of a run are lawful

What feeds a computed property ranks above it, since whatever was bound has passed the check
for cycles.  And what properties keep is stored as well, where they have names of their own
and setters map onto other names: so it is when they are bound, every write leaves it so, and
so does every update (`Model.IsLawful`, `Trail.lawful`).
-/
import LiveBinding.Proofs.Model.Cycle
import LiveBinding.Proofs.Model.Origin
import LiveBinding.Proofs.Run.Rows

namespace LiveBinding

set_option autoImplicit false

variable {σ : Type}

/-- What feeds the properties of the model ranks above them; and where they have names of
their own, and setters map onto other names, what they keep is stored. -/
structure Model.IsLawful (m : Model σ) : Prop where
  ranked : ∃ rank : String → Nat, ∀ before after, m.Feeds before after → rank after < rank before
  stores : (m.properties.map (·.name)).Nodup → m.MapsAside → m.Stores

namespace Model

variable {m : Model σ}

theorem stores_iff : m.Stores ↔ m.InAccord m.store :=
  ⟨fun stores => ⟨stores, fun _ _ _ => rfl⟩, InAccord.stored⟩

/-- Writes leave a model lawful. -/
theorem IsLawful.written {pending : Attributes} (lawful : m.IsLawful)
    (aside : m.MapsAside → ∀ name ∈ Fields.keys pending, m.isComputed name = false) :
    ({ m with store := (m.store.apply pending).1 } : Model σ).IsLawful := by
  refine ⟨lawful.ranked, fun distinct maps => ?_⟩
  have stored := (stores_iff.mp (lawful.stores distinct maps)).write (aside maps)
  exact stored.stored

/-- So does the new value of a property. -/
theorem IsLawful.adopted {p : Property σ} (value : Json) (lawful : m.IsLawful)
    (found : m.property? p.name = some p) : (m.adopt p value).1.IsLawful := by
  have same := sameShape_adopt p value m
  obtain ⟨rank, falls⟩ := lawful.ranked
  refine ⟨⟨rank, fun before after fed => falls before after (same.feeds fed)⟩,
    fun distinct maps => ?_⟩
  rw [same.names] at distinct
  have stored := (stores_iff.mp (lawful.stores distinct (same.symm.mapsAside maps))).adopt distinct
    found value
  exact stored.stored

theorem rowLaw_isLawful : World.RowLaw fun _ (m : Model σ) => m.IsLawful where
  bare none := by
    refine ⟨⟨fun _ => 0, ?_⟩, fun _ _ p listed => ?_⟩
    · rintro before after ⟨p, listed, -⟩
      rw [none] at listed
      cases listed
    · rw [none] at listed
      cases listed
  written := IsLawful.written
  adopted := IsLawful.adopted

theorem isLawful_first (acyclic : Graph.findCycle m.dependents = none) :
    ({ m with store := (m.store.apply m.initialWrites).1 } : Model σ).IsLawful := by
  obtain ⟨rank, falls, -⟩ := exists_rank acyclic
  exact ⟨⟨rank, falls⟩, fun distinct _ => (inAccord_first (m := m) distinct).stored⟩

end Model

/-- All models that come about in a run are lawful, if they were so at its beginning. -/
theorem Trail.lawful {start s : State σ} {past : List (Moment σ)} {awaited : Option (Call σ)}
    (bare : start.world.Rows fun _ m => m.IsLawful) (trail : Trail start past awaited s) :
    s.world.Rows fun _ m => m.IsLawful :=
  trail.rows Model.rowLaw_isLawful bare fun _ _ _ _ _ _ _ => Model.isLawful_first

/-- So are all models that come about. -/
theorem lawful_of_attained {s : State σ} (attained : Attained s) :
    s.world.Rows fun _ m => m.IsLawful := by
  obtain ⟨client, past, awaited, trail⟩ := attained
  refine trail.lawful fun model m present => ?_
  exact nomatch (Table.get?_empty model).symm.trans present

end LiveBinding
