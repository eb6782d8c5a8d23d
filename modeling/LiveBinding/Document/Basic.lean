/-
# LiveBinding.Document.Basic -- elements in a tree

A document is a growing list of elements; the first one is its root.  Every
element knows its parent and its children.  Appending an element takes it away
from its former parent; removing one detaches it and silences the listeners of
everything below it, which stays together.

The listeners of an element are called when its value is edited; their
identifiers are unique in the whole document and never given out twice.
-/
import LiveBinding.Document.Content
import LiveBinding.Hub

namespace LiveBinding

set_option autoImplicit false

/-- What a listener for edits does when it is called. -/
inductive EditReaction where
  /-- Call back the client. -/
  | client (callback : Nat)
  /-- Write the value of the element back into the model of a binding. -/
  | push (binding : Ref .binding) (slot : Nat)
  deriving DecidableEq

/-- What the listener does, among all that listeners do. -/
def EditReaction.reaction : EditReaction → Reaction
  | .client callback => .client callback
  | .push binding slot => .push binding slot

structure EditListener where
  id : Nat
  reaction : EditReaction
  deriving DecidableEq

/-- An element of a document. -/
structure Element where
  content : Content
  parent : Option (Ref .element)
  children : List (Ref .element)
  listeners : List EditListener

def Element.ofTag (tag : String) : Element :=
  ⟨.ofTag tag, none, [], []⟩

structure Document where
  elements : List Element
  nextListener : Nat

namespace Document

def rootTag : String := "#document"

def empty : Document := ⟨[.ofTag rootTag], 0⟩

def root : Ref .element := ⟨0⟩

def get? (d : Document) (e : Ref .element) : Option Element :=
  d.elements[e.index]?

def contains (d : Document) (e : Ref .element) : Bool :=
  e.index < d.elements.length

def fresh (d : Document) : Ref .element := ⟨d.elements.length⟩

def modify (e : Ref .element) (f : Element → Element) (d : Document) : Document :=
  { d with elements := d.elements.modify e.index f }

def amend (e : Ref .element) (f : Content → Content) (d : Document) : Document :=
  d.modify e fun element => { element with content := f element.content }

def create (tag : String) (d : Document) : Document :=
  { d with elements := d.elements ++ [.ofTag tag] }

def parent (d : Document) (e : Ref .element) : Option (Ref .element) :=
  (d.get? e).bind (·.parent)

def children (d : Document) (e : Ref .element) : List (Ref .element) :=
  match d.get? e with
  | some element => element.children
  | none => []

/-- Take an element out of the children of its parent. -/
def detach (e : Ref .element) (d : Document) : Document :=
  match d.parent e with
  | none => d
  | some p =>
      (d.modify e fun element => { element with parent := none }).modify p fun element =>
        { element with children := element.children.filter (· ≠ e) }

/-- Make `child` the last child of `parent`. -/
def appendChild (parent child : Ref .element) (d : Document) : Document :=
  ((d.detach child).modify child fun element => { element with parent := some parent }).modify
    parent fun element => { element with children := element.children ++ [child] }

/-- The elements below `e` in document order, `depth` levels of them. -/
def below (d : Document) : Nat → Ref .element → List (Ref .element)
  | 0, _ => []
  | depth + 1, e => (d.children e).flatMap fun child => child :: below d depth child

/-- The elements below `e` in document order. -/
def descendants (d : Document) (e : Ref .element) : List (Ref .element) :=
  d.below d.elements.length e

def silence (d : Document) (e : Ref .element) : Document :=
  d.modify e fun element => { element with listeners := [] }

/-- Detach an element, and drop the listeners of it and of everything below. -/
def remove (e : Ref .element) (d : Document) : Document :=
  (e :: d.descendants e).foldl silence (d.detach e)

/-- Listen to the edits of an element; the new listener comes last. -/
def addListener (e : Ref .element) (reaction : EditReaction) (d : Document) : Document :=
  let added := d.modify e fun element =>
    { element with listeners := element.listeners ++ [⟨d.nextListener, reaction⟩] }
  { added with nextListener := d.nextListener + 1 }

def removeListener (e : Ref .element) (id : Nat) (d : Document) : Document :=
  d.modify e fun element => { element with listeners := element.listeners.filter (·.id ≠ id) }

def listeners (d : Document) (e : Ref .element) : List EditListener :=
  match d.get? e with
  | some element => element.listeners
  | none => []

def listenerCount (d : Document) : Nat :=
  (d.elements.flatMap (·.listeners)).length

/-- A change of a document that calls no listener. -/
inductive Edit where
  | create (tag : String)
  | appendChild (parent child : Ref .element)
  | setId (element : Ref .element) (id : String)
  | setAttribute (element : Ref .element) (name : String) (value : Option String)
  | setProperty (element : Ref .element) (name : String) (value : Json)
  | toggleClass (element : Ref .element) (name : String) (enabled : Bool)
  | setStyle (element : Ref .element) (name value : String)
  | setHtml (element : Ref .element) (html : String)
  | setText (element : Ref .element) (text : String)
  | setVisible (element : Ref .element) (visible : Bool)
  | setValue (element : Ref .element) (value : Json)
  | removeListener (element : Ref .element) (id : Nat)
  | remove (element : Ref .element)

/-- Carry out a change. -/
def apply (d : Document) : Edit → Document
  | .create tag => d.create tag
  | .appendChild p c => d.appendChild p c
  | .setId e id => d.amend e (.setId id)
  | .setAttribute e name value => d.amend e (.setAttribute name value)
  | .setProperty e name value => d.amend e (.setProperty name value)
  | .toggleClass e name enabled => d.amend e (.toggleClass name enabled)
  | .setStyle e name value => d.amend e (.setStyle name value)
  | .setHtml e html => d.amend e (.setHtml html)
  | .setText e text => d.amend e (.setText text)
  | .setVisible e visible => d.amend e (.setVisible visible)
  | .setValue e value => d.amend e (.setValue value)
  | .removeListener e id => d.removeListener e id
  | .remove e => d.remove e

end Document

end LiveBinding
