/-
# LiveBinding.Document.Fixture -- markup as it is written down

A fixture describes an element with everything below it.  Mounting it creates
the elements in preorder, each as the last child of its parent.
-/
import LiveBinding.Document.Basic

namespace LiveBinding

set_option autoImplicit false

/-- An element with everything below it, as it is written down. -/
inductive Fixture where
  | element (tag : String) (id : Option String) (classes : List String)
      (text value : Option String) (children : List Fixture)

namespace Fixture

def id? : Fixture → Option String
  | .element _ id _ _ _ _ => id

def children : Fixture → List Fixture
  | .element _ _ _ _ _ children => children

/-- What the element of a fixture shows before its children are added. -/
def dress (id : Option String) (classes : List String) (text value : Option String)
    (c : Content) : Content :=
  let named := match id with
    | some id => c.setId id
    | none => c
  let classed := classes.foldl (fun c name => c.toggleClass name true) named
  let texted := match text with
    | some text => classed.setText text
    | none => classed
  match value with
  | some value => texted.setValue (.text value)
  | none => texted

mutual

/-- Create the element of a fixture, and everything below it, under `parent`. -/
def mount (parent : Ref .element) : Fixture → Document → Document
  | .element tag id classes text value children, d =>
      let e := d.fresh
      let appended := (d.create tag).appendChild parent e
      mountAll e children (appended.amend e (dress id classes text value))

/-- Create the elements of fixtures under `parent`, from the first to the last. -/
def mountAll (parent : Ref .element) : List Fixture → Document → Document
  | [], d => d
  | fixture :: rest, d => mountAll parent rest (mount parent fixture d)

end

mutual

def ids : Fixture → List String
  | .element _ id _ _ _ children => id.toList ++ allIds children

def allIds : List Fixture → List String
  | [] => []
  | fixture :: rest => fixture.ids ++ allIds rest

end

end Fixture

end LiveBinding
