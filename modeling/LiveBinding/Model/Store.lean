/-
# LiveBinding.Model.Store -- writing attributes

A write sets every entry, from the first to the last, and reports the entries
whose value it changed.  An entry is changed when the name was absent or held a
value that is not the same as data; an entry that is not changed is left as it
stands.
-/
import LiveBinding.Json.Basic

namespace LiveBinding.Attributes

set_option autoImplicit false

def holds (name : String) (value : Json) (store : Attributes) : Bool :=
  match Fields.get? name store with
  | some old => Json.same old value
  | none => false

/-- Write the entries of `pending`: the new store and the changes. -/
def apply (store : Attributes) : Attributes → Attributes × List (String × Json)
  | [] => (store, [])
  | (name, value) :: rest =>
      if holds name value store then apply store rest
      else
        let result := apply (Fields.set name value store) rest
        (result.1, (name, value) :: result.2)

def read (name : String) (store : Attributes) : Json :=
  (Fields.get? name store).getD .null

end LiveBinding.Attributes
