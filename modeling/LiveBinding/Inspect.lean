/-
# LiveBinding.Inspect -- descriptions for diagnosis

One line that shows what something is made of: a record as its name with its
fields in braces, a list in brackets, a text in quotes.  Inside a quoted text
the quote, the backslash and every character that is not shown as itself are
escaped.
-/
import LiveBinding.Text.Printable
import LiveBinding.World

namespace LiveBinding.Inspect

set_option autoImplicit false

/-! ## Shapes -/

/-- One character inside a quoted text. -/
def escapeChar (c : Char) : List Char :=
  if c = '"' then ['\\', '"']
  else if c = '\\' then ['\\', '\\']
  else if c = '\n' then ['\\', 'n']
  else if c = '\r' then ['\\', 'r']
  else if c = '\t' then ['\\', 't']
  else if c.toNat = 0 then ['\\', '0']
  else if Text.isPrintable c then [c]
  else '\\' :: 'u' :: '\x7b' :: Nat.toDigits 16 c.toNat ++ ['\x7d']

def text (s : String) : String :=
  String.ofList ('"' :: s.toList.flatMap escapeChar ++ ['"'])

def flag (b : Bool) : String :=
  if b then "true" else "false"

def list (items : List String) : String :=
  "[" ++ ", ".intercalate items ++ "]"

def dictionary (entries : List (String × String)) : String :=
  "\x7b" ++ ", ".intercalate (entries.map fun entry => entry.1 ++ ": " ++ entry.2) ++ "\x7d"

def record (name : String) (fields : List (String × String)) : String :=
  name ++ " \x7b " ++ ", ".intercalate (fields.map fun field => field.1 ++ ": " ++ field.2) ++
    " \x7d"

def wrapped (name inner : String) : String :=
  name ++ "(" ++ inner ++ ")"

/-! ## Values -/

mutual

/-- A value. -/
def value : Json → String
  | .null => "Null"
  | .bool b => wrapped "Bool" (flag b)
  | .number n => wrapped "Number" n.text
  | .text s => wrapped "String" (text s)
  | .list items => "Array " ++ list (values items)
  | .object members => "Object " ++ dictionary (entries members)

def values : List Json → List String
  | [] => []
  | item :: rest => value item :: values rest

def entries : List (String × Json) → List (String × String)
  | [] => []
  | (name, item) :: rest => (text name, value item) :: entries rest

end

def attributes (a : Attributes) : String :=
  dictionary (entries a)

/-! ## Things -/

def hub (h : Hub) : String :=
  record "EventHub" [("listeners", toString h.listeners.length)]

/-- A subscription; `active` tells whether its listener can still be called. -/
def subscription (s : Subscription) (active : Bool) : String :=
  record "Subscription" [("event", text s.event), ("active", flag active)]

def accessor (a : Accessor) : String :=
  wrapped "Accessor" (text a.name)

def events (dependencies : List Dependency) : String :=
  list (dependencies.map fun d => text d.event)

def definition {σ : Type} (d : Definition σ) : String :=
  record "ComputedDefinition"
    [("has_getter", flag d.getter.isSome), ("has_setter", flag d.setter.isSome),
      ("is_virtual", flag d.isVirtual), ("events", events d.events)]

def property {σ : Type} (p : Property σ) : String :=
  record "ComputedProperty"
    [("name", text p.name), ("value", value p.value), ("is_virtual", flag p.isVirtual),
      ("dependencies", events p.dependencies)]

def model {σ : Type} (m : Model σ) : String :=
  record "Model"
    [("attributes", record "AttributeStore" [("attributes", attributes m.store)]),
      ("computed", record "ComputedEngine" [("properties", list (m.properties.map property))])]

def standing : Binding.Standing → String
  | .compiled dirty => record "Compiled" [("dirty", flag dirty)]
  | .disposed => "Disposed"

def binding (b : Binding) : String :=
  record "Binding"
    [("selector", text b.selector), ("element", wrapped "ElementId" (toString b.element.index)),
      ("state", standing b.standing), ("subscriptions", toString b.subscriptions.length),
      ("listeners", toString b.listeners.length)]

def catalog (c : Catalog) : String :=
  list ((Index.keys c).map text)

end LiveBinding.Inspect
