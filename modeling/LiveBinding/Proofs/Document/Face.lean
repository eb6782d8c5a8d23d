/-
# LiveBinding.Proofs.Document.Face -- what can be looked at on an element

A face is one thing that an element shows: its text, a class, a style and so on.
Each of the standard operators shows its value on certain faces (`Face.shown`): one, or,
for those that take an object, one for each member.  What it shows there is there once
it was applied (`Operator.look_apply`).

Text and markup are two faces of one thing: setting either changes what the other shows.
-/
import LiveBinding.Binding.Operator
import LiveBinding.Proofs.Fields
import Mathlib.Data.List.Nodup

namespace LiveBinding

set_option autoImplicit false

/-- Something of an element that can be looked at. -/
inductive Face where
  | text
  | html
  | value
  | visible
  | property (name : String)
  | ofClass (name : String)
  | style (name : String)
  | attribute (name : String)
  deriving DecidableEq

/-- What shows there; null for a style or an attribute that is not set. -/
def Content.look (c : Content) : Face → Json
  | .text => .text c.text
  | .html => .text c.html
  | .value => .text c.value
  | .visible => .bool c.visible
  | .property name => c.property name
  | .ofClass name => .bool (c.hasClass name)
  | .style name => ((Index.get? name c.styles).map Json.text).getD .null
  | .attribute name => ((Index.get? name c.attributes).map Json.text).getD .null

namespace Face

/-- What `css` shows of a member; an empty style is not set. -/
def styled (value : Json) : Json :=
  if value.displayText = "" then .null else .text value.displayText

/-- What `attr` shows of a member; null and `false` are not set. -/
def attributed : Json → Json
  | .null => .null
  | .bool false => .null
  | other => .text other.displayText

/-- Where the standard operator of a name shows a value, and as what. -/
def shown (operator : String) (value : Json) : List (Face × Json) :=
  match operator with
  | "attr" => value.members.map fun member => (.attribute member.1, attributed member.2)
  | "checked" => [(.property "checked", .bool value.isTruthy)]
  | "className" => value.members.map fun member => (.ofClass member.1, .bool member.2.isTruthy)
  | "css" => value.members.map fun member => (.style member.1, styled member.2)
  | "enabled" => [(.property "disabled", .bool (!value.isTruthy))]
  | "html" => [(.html, .text value.displayText)]
  | "text" => [(.text, .text value.displayText)]
  | "toggle" => [(.visible, .bool value.isTruthy)]
  | "value" => [(.value, .text value.displayText)]
  | _ => []

/-- The faces on which it does. -/
def named (operator : String) (value : Json) : List Face :=
  (shown operator value).map (·.1)

end Face

/-! ## Single faces -/

namespace Content

theorem property_setProperty (name : String) (value : Json) (c : Content) :
    (c.setProperty name value).property name = value := by
  rw [property, setProperty, Index.get?_place_self]
  rfl

theorem hasClass_toggleClass (name : String) (enabled : Bool) (c : Content) :
    (c.toggleClass name enabled).hasClass name = enabled := by
  rw [toggleClass]
  split
  · rename_i on
    split
    · rename_i already
      rw [already, on]
    · simp [hasClass, on]
  · rename_i off
    simp [hasClass, off]

theorem hasClass_toggleClass_ne {name other : String} (distinct : other ≠ name) (enabled : Bool)
    (c : Content) : (c.toggleClass name enabled).hasClass other = c.hasClass other := by
  rw [toggleClass]
  split
  · split
    · rfl
    · simp [hasClass, distinct]
  · simp [hasClass, distinct]

theorem look_setStyle (name : String) (value : Json) (c : Content) :
    (c.setStyle name value.displayText).look (.style name) = Face.styled value := by
  rw [setStyle, Face.styled]
  split
  · simp [look, Index.get?_remove_self]
  · simp [look]

theorem look_setStyle_ne {name other : String} (distinct : other ≠ name) (value : String)
    (c : Content) : (c.setStyle name value).look (.style other) = c.look (.style other) := by
  rw [setStyle]
  split
  · simp [look, Index.get?_remove_ne _ distinct]
  · simp [look, Index.get?_place_ne _ _ distinct]

theorem look_setAttribute (name : String) (value : Option String) (c : Content) :
    (c.setAttribute name value).look (.attribute name) = (value.map Json.text).getD .null := by
  cases value with
  | some value => simp [look, setAttribute]
  | none => simp [look, setAttribute, Index.get?_remove_self]

theorem look_setAttribute_ne {name other : String} (distinct : other ≠ name)
    (value : Option String) (c : Content) :
    (c.setAttribute name value).look (.attribute other) = c.look (.attribute other) := by
  cases value with
  | some value => simp [look, setAttribute, Index.get?_place_ne _ _ distinct]
  | none => simp [look, setAttribute, Index.get?_remove_ne _ distinct]

end Content

/-! ## Operators -/

namespace Operator

/-- What is done with a member shows on a face that goes by its name, and on no other. -/
structure Touches (entry : String → Json → Content → Content) (face : String → Face)
    (shows : Json → Json) : Prop where
  sets : ∀ name value c, (entry name value c).look (face name) = shows value
  keeps : ∀ name value c other, other ≠ face name → (entry name value c).look other = c.look other
  apart : Function.Injective face

namespace Touches

variable {entry : String → Json → Content → Content} {face : String → Face} {shows : Json → Json}
  (touches : Touches entry face shows) {value : Json} {other : Face}

include touches

theorem look_of_not_mem (absent : other ∉ value.members.map fun member => face member.1)
    (c : Content) : (eachMember entry value c).look other = c.look other := by
  rw [eachMember]
  generalize value.members = members at absent
  induction members generalizing c with
  | nil => rfl
  | cons first rest ih =>
      rw [List.map_cons, List.mem_cons, not_or] at absent
      rw [List.foldl_cons, ih _ absent.2, touches.keeps _ _ _ _ absent.1]

/-- Of the members that show on a face the last one does. -/
theorem look_of_mem (among : other ∈ value.members.map fun member => face member.1) :
    ∃ member ∈ value.members, face member.1 = other ∧
      ∀ c, (eachMember entry value c).look other = shows member.2 := by
  have last : ∀ members : List (String × Json), other ∈ members.map (fun member => face member.1) →
      ∃ member ∈ members, face member.1 = other ∧ ∀ c : Content,
        (members.foldl (fun c member => entry member.1 member.2 c) c).look other =
          shows member.2 := by
    intro members among
    induction members with
    | nil => cases among
    | cons first rest ih =>
        by_cases later : other ∈ rest.map fun member => face member.1
        · obtain ⟨member, listed, same, looks⟩ := ih later
          exact ⟨member, List.mem_cons_of_mem _ listed, same, fun c => looks _⟩
        · have here : face first.1 = other := ((List.mem_cons.mp among).resolve_right later).symm
          refine ⟨first, List.mem_cons_self, here, fun c => ?_⟩
          have absent : other ∉ (Json.object rest).members.map fun member => face member.1 := later
          have still := touches.look_of_not_mem absent (entry first.1 first.2 c)
          rw [← here] at still ⊢
          exact still.trans (touches.sets _ _ c)
  exact last value.members among

/-- Applying an entry for each member of an object leaves each member shown, when no name
comes twice. -/
theorem look_eachMember (distinct : (value.members.map (·.1)).Nodup) {member : String × Json}
    (among : member ∈ value.members) (c : Content) :
    (eachMember entry value c).look (face member.1) = shows member.2 := by
  obtain ⟨last, listed, same, looks⟩ :=
    touches.look_of_mem (List.mem_map_of_mem (f := fun member => face member.1) among)
  obtain rfl := List.inj_on_of_nodup_map distinct listed among (touches.apart same)
  exact looks c

end Touches

theorem touches_setAttributeTo : Touches setAttributeTo Face.attribute Face.attributed where
  sets name value c := by
    unfold setAttributeTo Face.attributed
    split <;> simp [Content.look_setAttribute]
  keeps name value c other apart := by
    have kept : ∀ text : Option String, (c.setAttribute name text).look other = c.look other := by
      intro text
      cases other with
      | «attribute» other =>
          exact Content.look_setAttribute_ne (fun same => apart (congrArg _ same)) text c
      | _ => cases text <;> rfl
    unfold setAttributeTo
    split <;> exact kept _
  apart _ _ := Face.attribute.inj

theorem touches_toggleClass :
    Touches (fun name value c => c.toggleClass name value.isTruthy) Face.ofClass
      fun value => .bool value.isTruthy where
  sets name value c := congrArg Json.bool (Content.hasClass_toggleClass name value.isTruthy c)
  keeps name value c other apart := by
    cases other with
    | ofClass other =>
        exact congrArg Json.bool
          (Content.hasClass_toggleClass_ne (fun same => apart (congrArg _ same)) _ c)
    | _ =>
        rw [Content.toggleClass]
        split
        · split <;> rfl
        · rfl
  apart _ _ := Face.ofClass.inj

theorem touches_setStyle :
    Touches (fun name value c => c.setStyle name value.displayText) Face.style Face.styled where
  sets := Content.look_setStyle
  keeps name value c other apart := by
    cases other with
    | style other =>
        exact Content.look_setStyle_ne (fun same => apart (congrArg _ same)) _ c
    | _ =>
        rw [Content.setStyle]
        split <;> rfl
  apart _ _ := Face.style.inj

/-- The standard operators, each by its name. -/
theorem mem_standard {name : String} {operator : Operator}
    (known : Index.get? name Catalog.standard = some operator) :
    (name = "attr" ∧ operator = attr) ∨ (name = "checked" ∧ operator = checked) ∨
      (name = "className" ∧ operator = className) ∨ (name = "css" ∧ operator = css) ∨
      (name = "enabled" ∧ operator = enabled) ∨ (name = "html" ∧ operator = html) ∨
      (name = "text" ∧ operator = text) ∨ (name = "toggle" ∧ operator = toggle) ∨
      (name = "value" ∧ operator = value) := by
  simpa [Catalog.standard] using Index.mem_of_get? known

def takesObject (name : String) : Bool :=
  name = "attr" || name = "className" || name = "css"

def applyAll (operator : Operator) (values : List Json) (c : Content) : Content :=
  values.foldl (fun c value => operator.apply value c) c

theorem applyAll_concat (operator : Operator) (values : List Json) (value : Json) (c : Content) :
    operator.applyAll (values ++ [value]) c = operator.apply value (operator.applyAll values c) :=
  List.foldl_concat _ _ _ _

/-- What a standard operator shows of a value is there once it was applied. -/
theorem look_apply {name : String} {operator : Operator}
    (known : Index.get? name Catalog.standard = some operator) {value : Json}
    (distinct : takesObject name = true → (value.members.map (·.1)).Nodup) {face : Face}
    {shows : Json} (shown : (face, shows) ∈ Face.shown name value) (c : Content) :
    (operator.apply value c).look face = shows := by
  have single : ∀ {face' : Face} {shows' : Json}, (face, shows) ∈ [(face', shows')] →
      (operator.apply value c).look face' = shows' → (operator.apply value c).look face = shows := by
    intro face' shows' among looks
    cases List.mem_singleton.mp among
    exact looks
  rcases mem_standard known with ⟨rfl, rfl⟩ | ⟨rfl, rfl⟩ | ⟨rfl, rfl⟩ | ⟨rfl, rfl⟩ | ⟨rfl, rfl⟩ |
    ⟨rfl, rfl⟩ | ⟨rfl, rfl⟩ | ⟨rfl, rfl⟩ | ⟨rfl, rfl⟩
  case inl =>
    obtain ⟨member, among, same⟩ := List.mem_map.mp shown
    cases same
    exact touches_setAttributeTo.look_eachMember (distinct rfl) among c
  case inr.inl => exact single shown (Content.property_setProperty _ _ _)
  case inr.inr.inl =>
    obtain ⟨member, among, same⟩ := List.mem_map.mp shown
    cases same
    exact touches_toggleClass.look_eachMember (distinct rfl) among c
  case inr.inr.inr.inl =>
    obtain ⟨member, among, same⟩ := List.mem_map.mp shown
    cases same
    exact touches_setStyle.look_eachMember (distinct rfl) among c
  case inr.inr.inr.inr.inl => exact single shown (Content.property_setProperty _ _ _)
  case inr.inr.inr.inr.inr.inl => exact single shown rfl
  case inr.inr.inr.inr.inr.inr.inl => exact single shown rfl
  case inr.inr.inr.inr.inr.inr.inr.inl => exact single shown rfl
  case inr.inr.inr.inr.inr.inr.inr.inr => exact single shown rfl

section TakesObject

variable {name : String} {operator : Operator}
  (known : Index.get? name Catalog.standard = some operator) (takes : takesObject name = true)
  {value : Json} {face : Face} {c c' : Content}

include known takes

theorem exists_touches : ∃ entry face shows, Touches entry face shows ∧
    operator.apply = eachMember entry ∧
    ∀ value, Face.named name value = value.members.map fun member => face member.1 := by
  rcases mem_standard known with ⟨rfl, rfl⟩ | ⟨rfl, rfl⟩ | ⟨rfl, rfl⟩ | ⟨rfl, rfl⟩ | ⟨rfl, rfl⟩ |
    ⟨rfl, rfl⟩ | ⟨rfl, rfl⟩ | ⟨rfl, rfl⟩ | ⟨rfl, rfl⟩
  case inl => exact ⟨_, _, _, touches_setAttributeTo, rfl, fun _ => List.map_map⟩
  case inr.inr.inl => exact ⟨_, _, _, touches_toggleClass, rfl, fun _ => List.map_map⟩
  case inr.inr.inr.inl => exact ⟨_, _, _, touches_setStyle, rfl, fun _ => List.map_map⟩
  all_goals exact absurd takes (by decide)

/-- What the object does not name stays as it is. -/
theorem look_apply_of_not_named (absent : face ∉ Face.named name value) (c : Content) :
    (operator.apply value c).look face = c.look face := by
  obtain ⟨entry, at_, shows, touches, applies, named⟩ := exists_touches known takes
  rw [applies]
  exact touches.look_of_not_mem (named value ▸ absent) c

/-- What it names looks the same whatever was there. -/
theorem look_apply_of_named (among : face ∈ Face.named name value) (c c' : Content) :
    (operator.apply value c).look face = (operator.apply value c').look face := by
  obtain ⟨entry, at_, shows, touches, applies, named⟩ := exists_touches known takes
  obtain ⟨member, -, -, looks⟩ := touches.look_of_mem (named value ▸ among)
  rw [applies, looks, looks]

/-- One face is not affected by what shows on others. -/
theorem look_apply_congr (same : c.look face = c'.look face) :
    (operator.apply value c).look face = (operator.apply value c').look face := by
  by_cases among : face ∈ Face.named name value
  · exact look_apply_of_named known takes among c c'
  · rw [look_apply_of_not_named known takes among, look_apply_of_not_named known takes among, same]

/-- Where a value was applied, applying it again changes nothing. -/
theorem look_apply_again (applied : c.look face = (operator.apply value c').look face) :
    (operator.apply value c).look face = c.look face := by
  by_cases among : face ∈ Face.named name value
  · rw [applied]
    exact look_apply_of_named known takes among c c'
  · exact look_apply_of_not_named known takes among c

/-- What no object names stays as it is. -/
theorem look_applyAll_of_not_named {values : List Json}
    (absent : ∀ value ∈ values, face ∉ Face.named name value) (c : Content) :
    (operator.applyAll values c).look face = c.look face := by
  induction values generalizing c with
  | nil => rfl
  | cons value rest ih =>
      have later : ∀ other ∈ rest, face ∉ Face.named name other := fun other listed =>
        absent other (List.mem_cons_of_mem _ listed)
      exact (ih later _).trans
        (look_apply_of_not_named known takes (absent value List.mem_cons_self) c)

/-- What the last object names, or none before it has named, shows as if the others had not been
there. -/
theorem look_applyAll_concat {values : List Json}
    (fresh : face ∈ Face.named name value ∨ ∀ former ∈ values, face ∉ Face.named name former)
    (c : Content) :
    (operator.applyAll (values ++ [value]) c).look face = (operator.apply value c).look face := by
  rw [applyAll_concat]
  rcases fresh with among | absent
  · exact look_apply_of_named known takes among _ c
  · exact look_apply_congr known takes (look_applyAll_of_not_named known takes absent c)

end TakesObject

/-- Standard operators leave the tag of an element alone. -/
theorem tag_apply {name : String} {operator : Operator}
    (known : Index.get? name Catalog.standard = some operator) (value : Json) (c : Content) :
    (operator.apply value c).tag = c.tag := by
  have each : ∀ entry : String → Json → Content → Content,
      (∀ name value c, (entry name value c).tag = c.tag) →
      (eachMember entry value c).tag = c.tag := by
    intro entry keeps
    rw [eachMember]
    generalize value.members = members
    induction members generalizing c with
    | nil => rfl
    | cons first rest ih => rw [List.foldl_cons, ih, keeps]
  rcases mem_standard known with ⟨-, rfl⟩ | ⟨-, rfl⟩ | ⟨-, rfl⟩ | ⟨-, rfl⟩ | ⟨-, rfl⟩ |
    ⟨-, rfl⟩ | ⟨-, rfl⟩ | ⟨-, rfl⟩ | ⟨-, rfl⟩
  case inl =>
    refine each _ fun name value c => ?_
    unfold setAttributeTo
    split <;> rfl
  case inr.inr.inl =>
    refine each _ fun name value c => ?_
    rw [Content.toggleClass]
    split
    · split <;> rfl
    · rfl
  case inr.inr.inr.inl =>
    refine each _ fun name value c => ?_
    rw [Content.setStyle]
    split <;> rfl
  all_goals rfl

end Operator

end LiveBinding
