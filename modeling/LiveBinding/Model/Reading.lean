/-
# LiveBinding.Model.Reading -- code that derives a value by reading attributes

A getter is a tree of questions: it asks for an attribute, goes on with the
answer, and ends with a value or with a failure.  It may also look at and
change the state `σ` of the client that wrote it; it changes nothing else.

Reading is recorded or plain.  While dependencies are being captured, every
recorded read adds the dependency of the attribute to a collector.
-/
import LiveBinding.Dependency
import LiveBinding.Json.Text

namespace LiveBinding

set_option autoImplicit false

/-- What reading an attribute of a model finds. -/
structure Seen where
  hub : Ref .hub
  value : Json

/-- What any model shows of any attribute; none when the model is gone. -/
abbrev Sight := Ref .model → String → Option Seen

/-- Code that reads attributes and ends with an `α` or with a failure. -/
inductive Reading (σ α : Type) where
  | done (value : α)
  | fail (reason : String)
  /-- Read an attribute of a model, `none` being the owner of the code. -/
  | read (source : Option (Ref .model)) (recorded : Bool) (name : String)
      (next : Json → Reading σ α)
  /-- Ask whether dependencies are being captured. -/
  | capturing (next : Bool → Reading σ α)
  /-- Look at the client's state. -/
  | look (next : σ → Reading σ α)
  /-- Change the client's state. -/
  | change (f : σ → σ) (next : Reading σ α)

namespace Reading

variable {σ α β : Type}

def get (name : String) : Reading σ Json :=
  .read none true name .done

def getText (name : String) : Reading σ String :=
  .read none true name fun value => .done value.displayText

/-- Go on with the value. -/
def bind : Reading σ α → (α → Reading σ β) → Reading σ β
  | .done value, k => k value
  | .fail reason, _ => .fail reason
  | .read source recorded name next, k =>
      .read source recorded name fun value => (next value).bind k
  | .capturing next, k => .capturing fun b => (next b).bind k
  | .look next, k => .look fun s => (next s).bind k
  | .change f next, k => .change f (next.bind k)

instance : Monad (Reading σ) where
  pure := .done
  bind := .bind

/-- How a run of reading code ends. -/
structure Result (σ α : Type) where
  outcome : Except String α
  client : σ
  captured : Collector

/-- Run reading code of the model `owner`.  With `capturing` the recorded reads
are added to the collector. -/
def run (sight : Sight) (owner : Ref .model) (capturing : Bool) :
    Reading σ α → σ → Collector → Result σ α
  | .done value, client, captured => ⟨.ok value, client, captured⟩
  | .fail reason, client, captured => ⟨.error reason, client, captured⟩
  | .read source recorded name next, client, captured =>
      match sight (source.getD owner) name with
      | some seen =>
          let captured :=
            if capturing && recorded then
              Collector.record (.ofRead seen.hub name) captured
            else captured
          (next seen.value).run sight owner capturing client captured
      | none => (next .null).run sight owner capturing client captured
  | .capturing next, client, captured =>
      (next capturing).run sight owner capturing client captured
  | .look next, client, captured => (next client).run sight owner capturing client captured
  | .change f next, client, captured => next.run sight owner capturing (f client) captured

end Reading

/-- Derives a value from attributes. -/
abbrev Getter (σ : Type) := Reading σ Json

/-- Maps an incoming value onto attributes, or fails. -/
abbrev Setter (σ : Type) := Json → σ → Except String Attributes × σ

end LiveBinding
