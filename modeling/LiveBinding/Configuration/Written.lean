/-
# LiveBinding.Configuration.Written -- data as it is written down

Configurations are written in YAML or as JSON values.  `Written` is what both
have in common: lists, records, and scalars with all that they can be taken
for.  A plain YAML scalar can be taken for a text whatever it means; a JSON
value is only what it is.

A record may be written as a list of its fields in JSON; it may not in YAML.
A field of a record must not be written twice; fields that nobody asks for are
passed over.
-/
import LiveBinding.Json.Reading
import LiveBinding.Yaml.Node
import LiveBinding.Yaml.Value

namespace LiveBinding

set_option autoImplicit false

/-- A scalar with all that it can be taken for. -/
structure WrittenScalar where
  text : Option String
  flag : Option Bool
  isNull : Bool
  value : Option Json

/-- Data as it is written down. -/
inductive Written where
  /-- A place left empty, which can also be taken for an empty list or record. -/
  | nothing
  | scalar (scalar : WrittenScalar)
  | list (mayBeRecord : Bool) (items : List Written)
  /-- A key is `none` when it is no scalar. -/
  | record (entries : List (Option String × Written))
  deriving Inhabited

/-- A reason why written data is not what it is taken for. -/
inductive Mismatch where
  | expectedText
  | expectedFlag
  | expectedList
  | expectedRecord
  | expectedKey
  | missingField (name : String)
  | repeatedField (name : String)
  | surplusItems
  | numberOutOfRange
  | tooDeep
  deriving DecidableEq

/-- The wording of a mismatch. -/
def Mismatch.message : Mismatch → String
  | .expectedText => "invalid type, expected a string"
  | .expectedFlag => "invalid type, expected a boolean"
  | .expectedList => "invalid type, expected a sequence"
  | .expectedRecord => "invalid type, expected a map"
  | .expectedKey => "invalid type, expected a string key"
  | .missingField name => "missing field '" ++ name ++ "'"
  | .repeatedField name => "duplicate field '" ++ name ++ "'"
  | .surplusItems => "invalid length, too many items"
  | .numberOutOfRange => "number out of range"
  | .tooDeep => "nested too deeply"

namespace Written

/-! ## From the notations -/

mutual

/-- A JSON value as written data. -/
def ofJson : Json → Written
  | .null => .scalar ⟨none, none, true, some .null⟩
  | .bool b => .scalar ⟨none, some b, false, some (.bool b)⟩
  | .number n => .scalar ⟨none, none, false, some (.number n)⟩
  | .text s => .scalar ⟨some s, none, false, some (.text s)⟩
  | .list items => .list true (ofItems items)
  | .object members => .record (ofMembers members)

def ofItems : List Json → List Written
  | [] => []
  | item :: rest => ofJson item :: ofItems rest

def ofMembers : List (String × Json) → List (Option String × Written)
  | [] => []
  | (name, value) :: rest => (some name, ofJson value) :: ofMembers rest

end

def keyOf : Yaml.Node → Option String
  | .scalar _ text => some text
  | _ => none

def ofScalar (plain : Bool) (text : String) : Written :=
  if !plain then .scalar ⟨some text, none, false, some (.text text)⟩
  else if text = "" then .nothing
  else .scalar ⟨some text, Yaml.flag? text, Yaml.isNullWord text, Yaml.plainValue? text⟩

mutual

def ofNode : Yaml.Node → Written
  | .scalar plain text => ofScalar plain text
  | .sequence items => .list false (ofNodes items)
  | .mapping entries => .record (ofEntries entries)

def ofNodes : List Yaml.Node → List Written
  | [] => []
  | item :: rest => ofNode item :: ofNodes rest

def ofEntries : List (Yaml.Node × Yaml.Node) → List (Option String × Written)
  | [] => []
  | (key, value) :: rest => (keyOf key, ofNode value) :: ofEntries rest

end

/-! ## What data is taken for -/

def text : Written → Except Mismatch String
  | .nothing => .ok ""
  | .scalar ⟨some s, _, _, _⟩ => .ok s
  | _ => .error .expectedText

def optionalText : Written → Except Mismatch (Option String)
  | .nothing => .ok none
  | .scalar ⟨_, _, true, _⟩ => .ok none
  | other => do .ok (some (← other.text))

def flag : Written → Except Mismatch Bool
  | .scalar ⟨_, some b, _, _⟩ => .ok b
  | _ => .error .expectedFlag

def items : Written → Except Mismatch (List Written)
  | .nothing => .ok []
  | .list _ items => .ok items
  | _ => .error .expectedList

def texts (w : Written) : Except Mismatch (List String) := do
  (← w.items).mapM text

mutual

/-- Taken for a value. -/
def value : Written → Except Mismatch Json
  | .nothing => .ok .null
  | .scalar ⟨_, _, _, some v⟩ => .ok v
  | .scalar ⟨_, _, _, none⟩ => .error .numberOutOfRange
  | .list _ items => do .ok (.list (← itemValues items))
  | .record entries => do .ok (.object (Fields.ofEntries (← entryValues entries)))

/-- Items taken for values. -/
def itemValues : List Written → Except Mismatch (List Json)
  | [] => .ok []
  | item :: rest => do
      let first ← value item
      let others ← itemValues rest
      .ok (first :: others)

/-- Entries taken for members of an object. -/
def entryValues : List (Option String × Written) → Except Mismatch (List (String × Json))
  | [] => .ok []
  | (some name, item) :: rest => do
      let first ← value item
      let others ← entryValues rest
      .ok ((name, first) :: others)
  | (none, _) :: _ => .error .expectedKey

end

/-- Taken for named values of one kind: a name written twice keeps its first
place and its last value. -/
def named {α : Type} (part : Written → Except Mismatch α) : Written → Except Mismatch (Fields α)
  | .nothing => .ok []
  | .record entries => do
      let read ← entries.mapM fun entry =>
        match entry.1 with
        | some name => do .ok (name, ← part entry.2)
        | none => .error .expectedKey
      .ok (Fields.ofEntries read)
  | _ => .error .expectedRecord

def entriesOf (name : String) (entries : List (Option String × Written)) : List Written :=
  (entries.filter fun entry => entry.1 = some name).map (·.2)

/-- Refuse a record that has one of `names` twice, or a key that is no text. -/
def checkEntries (names : List String) (entries : List (Option String × Written)) :
    Except Mismatch Unit :=
  if entries.any (·.1.isNone) then .error .expectedKey
  else
    match names.find? fun name => 1 < (entriesOf name entries).length with
    | some name => .error (.repeatedField name)
    | none => .ok ()

/-- Taken for a record with fields called `names`: what is written for each. -/
def parts (names : List String) : Written → Except Mismatch (String → Option Written)
  | .nothing => .ok fun _ => none
  | .record entries => do
      checkEntries names entries
      .ok fun name => (entriesOf name entries).head?
  | .list true items =>
      if names.length < items.length then .error .surplusItems
      else .ok fun name => Fields.get? name (names.zip items)
  | _ => .error .expectedRecord

/-- What is written for a field, or `default` when nothing is. -/
def orDefault {α : Type} (default : α) (read : Written → Except Mismatch α) :
    Option Written → Except Mismatch α
  | some w => read w
  | none => .ok default

/-- What is written for a field that must be there. -/
def required {α : Type} (name : String) (read : Written → Except Mismatch α) :
    Option Written → Except Mismatch α
  | some w => read w
  | none => .error (.missingField name)

mutual

/-- How deep lists and records are nested. -/
def depth : Written → Nat
  | .nothing => 0
  | .scalar _ => 0
  | .list _ items => 1 + itemDepth items
  | .record entries => 1 + entryDepth entries

def itemDepth : List Written → Nat
  | [] => 0
  | item :: rest => max item.depth (itemDepth rest)

def entryDepth : List (Option String × Written) → Nat
  | [] => 0
  | (_, item) :: rest => max item.depth (entryDepth rest)

end

end Written

end LiveBinding
