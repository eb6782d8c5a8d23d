/-
# LiveBinding.Proofs.Configuration.Template -- templates as getters

The getter of a template asks its model for the fields of the template, in their
order, and gives the rendered text (`Template.getter_gives`).
-/
import LiveBinding.Configuration.Build
import LiveBinding.Proofs.Model.Reading

namespace LiveBinding

set_option autoImplicit false

variable {σ α β : Type}

theorem Reading.Gives.bind {look : String → Json} {reading : Reading σ α} {asked asked' : List String}
    {value : α} {k : α → Reading σ β} {outcome : Except String β}
    (gives : Gives look reading asked (.ok value)) (then_ : Gives look (k value) asked' outcome) :
    Gives look (reading.bind k) (asked ++ asked') outcome := by
  generalize reached : Except.ok value = first at gives
  induction gives with
  | done value' =>
      cases reached
      exact then_
  | fail reason => cases reached
  | read rest ih => exact .read (ih reached)

theorem Reading.Gives.map {look : String → Json} {reading : Reading σ α} {asked : List String}
    {value : α} (f : α → β) (gives : Gives look reading asked (.ok value)) :
    Gives look (reading.bind fun value => .done (f value)) asked (.ok (f value)) := by
  have whole := Gives.bind (k := fun value => .done (f value)) gives (.done (f value))
  rwa [List.append_nil] at whole

namespace Template

variable {look : String → Json}

def fieldsOf (segments : List Segment) : List String :=
  fields ⟨segments⟩

theorem readFields_gives (segments : List Segment) :
    Reading.Gives look (readFields segments : Reading σ String) (fieldsOf segments)
      (.ok (render look ⟨segments⟩)) := by
  induction segments with
  | nil => exact .done ""
  | cons segment rest ih =>
      have rendered : render look ⟨segment :: rest⟩ = segment.fill look ++ render look ⟨rest⟩ :=
        String.join_cons
      rw [rendered]
      cases segment with
      | text value =>
          exact ih.map fun more => value ++ more
      | field name =>
          exact .read (ih.map fun more => (look name).displayText ++ more)

/-- What the getter of a template asks for, and what it gives. -/
theorem getter_gives (t : Template) :
    Reading.Gives look (t.getter : Getter σ) t.fields (.ok (.text (t.render look))) := by
  exact (readFields_gives t.segments).map Json.text

theorem getter_asks (t : Template) : (t.getter : Getter σ).Asks t.fields := by
  intro look
  refine ⟨t.fields, _, t.getter_gives, fun _ => Iff.rfl, ?_⟩
  rintro value ⟨⟩
  rfl

/-- Rendering looks at the fields only. -/
theorem render_congr {look look' : String → Json} (t : Template)
    (same : ∀ name ∈ t.fields, look' name = look name) : t.render look' = t.render look := by
  have gives : Reading.Gives look (t.getter : Getter Unit) t.fields (.ok (.text (t.render look))) :=
    t.getter_gives
  have rendered := ((gives.congr same).unique t.getter_gives).2
  exact (Json.text.inj (Except.ok.inj rendered)).symm

end Template

end LiveBinding
