/-
# LiveBinding.Yaml.Node -- YAML text as a tree

A node is a scalar, a sequence or a mapping; what is left out is an empty plain
scalar.  A text holds at most one document.
-/
import LiveBinding.Yaml.Layout

namespace LiveBinding.Yaml

set_option autoImplicit false

/-- A node of a YAML document. -/
inductive Node where
  | scalar (plain : Bool) (text : String)
  | sequence (items : List Node)
  | mapping (entries : List (Node × Node))
  deriving Inhabited

namespace Node

/- Each reader gives what it read together with the tokens behind it. -/

/-- What stands where nothing is written. -/
def absent : Node := .scalar true ""

/-- The tokens begin with one of `stops`. -/
def stopsAt (stops : List Token) (ts : List Token) : Bool :=
  match ts with
  | [] => false
  | t :: _ => t ∈ stops

/-- The tokens that end a block mapping entry where no node is written. -/
def entryStops : List Token := [.key, .value, .blockEnd]

mutual

/-- Read a node.  Block collections are allowed where `block` holds; a
sequence without indentation of its own where `indentless` holds. -/
def read (block indentless : Bool) : Nat → List Token → Except Fault (Node × List Token)
  | 0, _ => .error .expectedNode
  | fuel + 1, ts =>
      match ts with
      | .scalar plain text :: rest => .ok (.scalar plain text, rest)
      | .flowSequenceStart :: rest => do
          let items ← readFlowItems true fuel rest
          .ok (.sequence items.1, items.2)
      | .flowMappingStart :: rest => do
          let entries ← readFlowEntries true fuel rest
          .ok (.mapping entries.1, entries.2)
      | .blockEntry :: _ =>
          if indentless then do
            let items ← readPlainItems fuel ts
            .ok (.sequence items.1, items.2)
          else .error .expectedNode
      | .blockSequenceStart :: rest =>
          if block then do
            let items ← readBlockItems fuel rest
            .ok (.sequence items.1, items.2)
          else .error .expectedNode
      | .blockMappingStart :: rest =>
          if block then do
            let entries ← readBlockEntries fuel rest
            .ok (.mapping entries.1, entries.2)
          else .error .expectedNode
      | _ => .error .expectedNode

/-- Read a node, or nothing before one of `stops`. -/
def readOr (stops : List Token) (block indentless : Bool) : Nat → List Token → Except Fault (Node × List Token)
  | 0, _ => .error .expectedNode
  | fuel + 1, ts =>
      if stopsAt stops ts then .ok (absent, ts) else read block indentless fuel ts

/-- Read the entries of a block sequence. -/
def readBlockItems : Nat → List Token → Except Fault (List Node × List Token)
  | 0, _ => .error .expectedNode
  | fuel + 1, ts =>
      match ts with
      | .blockEntry :: rest => do
          let item ← readOr [.blockEntry, .blockEnd] true false fuel rest
          let more ← readBlockItems fuel item.2
          .ok (item.1 :: more.1, more.2)
      | .blockEnd :: rest => .ok ([], rest)
      | _ => .error .expectedEntry

/-- Read the entries of a sequence that stands at the column of its mapping. -/
def readPlainItems : Nat → List Token → Except Fault (List Node × List Token)
  | 0, _ => .error .expectedNode
  | fuel + 1, ts =>
      match ts with
      | .blockEntry :: rest => do
          let item ← readOr (.blockEntry :: entryStops) true false fuel rest
          let more ← readPlainItems fuel item.2
          .ok (item.1 :: more.1, more.2)
      | rest => .ok ([], rest)

/-- Read the entries of a block mapping. -/
def readBlockEntries : Nat → List Token → Except Fault (List (Node × Node) × List Token)
  | 0, _ => .error .expectedNode
  | fuel + 1, ts =>
      match ts with
      | .key :: rest => do
          let key ← readOr entryStops true true fuel rest
          let value ← readBlockValue fuel key.2
          let more ← readBlockEntries fuel value.2
          .ok ((key.1, value.1) :: more.1, more.2)
      | .blockEnd :: rest => .ok ([], rest)
      | _ => .error .expectedKey

/-- Read the value of a block mapping entry. -/
def readBlockValue : Nat → List Token → Except Fault (Node × List Token)
  | 0, _ => .error .expectedNode
  | fuel + 1, ts =>
      match ts with
      | .value :: rest => readOr entryStops true true fuel rest
      | rest => .ok (absent, rest)

/-- Read the entries of a flow sequence. -/
def readFlowItems (first : Bool) : Nat → List Token → Except Fault (List Node × List Token)
  | 0, _ => .error .expectedNode
  | fuel + 1, ts =>
      match first, ts with
      | _, .flowSequenceEnd :: rest => .ok ([], rest)
      | true, _ => readFlowItem fuel ts
      | false, .flowEntry :: .flowSequenceEnd :: rest => .ok ([], rest)
      | false, .flowEntry :: rest => readFlowItem fuel rest
      | false, _ => .error .expectedCommaOrBracket

/-- Read an entry of a flow sequence and those behind it.  A key makes it a
mapping of one entry. -/
def readFlowItem : Nat → List Token → Except Fault (List Node × List Token)
  | 0, _ => .error .expectedNode
  | fuel + 1, ts =>
      match ts with
      | .key :: rest => do
          let key ← readOr [.value, .flowEntry, .flowSequenceEnd] false false fuel rest
          let value ← readFlowValue .flowSequenceEnd fuel key.2
          let more ← readFlowItems false fuel value.2
          .ok (.mapping [(key.1, value.1)] :: more.1, more.2)
      | _ => do
          let item ← read false false fuel ts
          let more ← readFlowItems false fuel item.2
          .ok (item.1 :: more.1, more.2)

/-- Read the value of an entry in a flow collection that ends with `close`. -/
def readFlowValue (close : Token) : Nat → List Token → Except Fault (Node × List Token)
  | 0, _ => .error .expectedNode
  | fuel + 1, ts =>
      match ts with
      | .value :: rest => readOr [.flowEntry, close] false false fuel rest
      | rest => .ok (absent, rest)

/-- Read the entries of a flow mapping. -/
def readFlowEntries (first : Bool) : Nat → List Token → Except Fault (List (Node × Node) × List Token)
  | 0, _ => .error .expectedNode
  | fuel + 1, ts =>
      match first, ts with
      | _, .flowMappingEnd :: rest => .ok ([], rest)
      | true, _ => readFlowEntry fuel ts
      | false, .flowEntry :: .flowMappingEnd :: rest => .ok ([], rest)
      | false, .flowEntry :: rest => readFlowEntry fuel rest
      | false, _ => .error .expectedCommaOrBrace

/-- Read an entry of a flow mapping and those behind it. -/
def readFlowEntry : Nat → List Token → Except Fault (List (Node × Node) × List Token)
  | 0, _ => .error .expectedNode
  | fuel + 1, ts =>
      match ts with
      | .key :: rest => do
          let key ← readOr [.value, .flowEntry, .flowMappingEnd] false false fuel rest
          let value ← readFlowValue .flowMappingEnd fuel key.2
          let more ← readFlowEntries false fuel value.2
          .ok ((key.1, value.1) :: more.1, more.2)
      | _ => do
          let key ← read false false fuel ts
          let more ← readFlowEntries false fuel key.2
          .ok ((key.1, absent) :: more.1, more.2)

end

/-- Refuse tokens behind the end of a document. -/
def expectEnd : List Token → Except Fault Unit
  | [] => .ok ()
  | .documentEnd :: rest => expectEnd rest
  | .documentStart :: _ => .error .severalDocuments
  | _ => .error .expectedDocumentStart

/-- Read the content of a document: nothing before a mark or the end. -/
def readContent (ts : List Token) : Except Fault (Node × List Token) :=
  match ts with
  | [] => .ok (absent, [])
  | .documentStart :: _ => .ok (absent, ts)
  | .documentEnd :: _ => .ok (absent, ts)
  | _ => read true false (4 * ts.length + 4) ts

/-- Read the one document of a text; none when there is nothing in it. -/
def ofText (text : String) : Except Fault (Option Node) := do
  match ← tokens text with
  | [] => .ok none
  | .documentStart :: rest =>
      let result ← readContent rest
      expectEnd result.2
      .ok (some result.1)
  | ts =>
      let result ← read true false (4 * ts.length + 4) ts
      expectEnd result.2
      .ok (some result.1)

end Node

end LiveBinding.Yaml
