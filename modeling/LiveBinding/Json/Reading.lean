/-
# LiveBinding.Json.Reading -- values from JSON text

Strict JSON: no comments, no trailing commas, no control characters inside
strings, surrogates only in pairs, and at most 127 lists and objects inside one
another.  Of a repeated name in an object the first place and the last value
stay.
-/
import LiveBinding.Json.Basic
import LiveBinding.Number.Reading

namespace LiveBinding.Json

set_option autoImplicit false

/-- The blanks of JSON text. -/
def isGap (c : Char) : Bool :=
  c = ' ' || c = '\n' || c = '\t' || c = '\r'

def skipGap (cs : List Char) : List Char :=
  cs.dropWhile isGap

/-- The value of a hexadecimal digit. -/
def hexValue? (c : Char) : Option Nat :=
  if '0' ≤ c ∧ c ≤ '9' then some (c.toNat - '0'.toNat)
  else if 'a' ≤ c ∧ c ≤ 'f' then some (c.toNat - 'a'.toNat + 10)
  else if 'A' ≤ c ∧ c ≤ 'F' then some (c.toNat - 'A'.toNat + 10)
  else none

/-- The number of four hexadecimal digits. -/
def hexUnit? (a b c d : Char) : Option Nat := do
  let a ← hexValue? a
  let b ← hexValue? b
  let c ← hexValue? c
  let d ← hexValue? d
  some (((a * 16 + b) * 16 + c) * 16 + d)

/-- The character a letter after a backslash stands for. -/
def escaped? (c : Char) : Option Char :=
  match c with
  | '"' => some '"'
  | '\\' => some '\\'
  | '/' => some '/'
  | 'b' => some (Char.ofNat 8)
  | 'f' => some (Char.ofNat 12)
  | 'n' => some '\n'
  | 'r' => some '\r'
  | 't' => some '\t'
  | _ => none

/-- The characters up to the closing quote, and what follows it. -/
def readString? : List Char → Option (List Char × List Char)
  | [] => none
  | '"' :: rest => some ([], rest)
  | '\\' :: 'u' :: a :: b :: c :: d :: '\\' :: 'u' :: e :: f :: g :: h :: rest =>
      match hexUnit? a b c d, hexUnit? e f g h with
      | some high, some low =>
          if 0xD800 ≤ high ∧ high < 0xDC00 then
            if 0xDC00 ≤ low ∧ low < 0xE000 then
              let code := 0x10000 + (high - 0xD800) * 1024 + (low - 0xDC00)
              (readString? rest).map fun r => (Char.ofNat code :: r.1, r.2)
            else none
          else if 0xDC00 ≤ high ∧ high < 0xE000 then none
          else
            (readString? ('\\' :: 'u' :: e :: f :: g :: h :: rest)).map fun r =>
              (Char.ofNat high :: r.1, r.2)
      | _, _ => none
  | '\\' :: 'u' :: a :: b :: c :: d :: rest =>
      match hexUnit? a b c d with
      | some unit =>
          if 0xD800 ≤ unit ∧ unit < 0xE000 then none
          else (readString? rest).map fun r => (Char.ofNat unit :: r.1, r.2)
      | none => none
  | '\\' :: c :: rest =>
      match escaped? c with
      | some c => (readString? rest).map fun r => (c :: r.1, r.2)
      | none => none
  | c :: rest =>
      if c = '\\' ∨ c.toNat < 32 then none
      else (readString? rest).map fun r => (c :: r.1, r.2)

/-- What follows `word`, when the text begins with it. -/
def after? (word : List Char) (cs : List Char) : Option (List Char) :=
  if word.isPrefixOf cs then some (cs.drop word.length) else none

mutual

/-- The value at the front, and the rest.  `depth` more lists or objects may be
opened; `fuel` bounds the characters looked at. -/
def readValue? : Nat → Nat → List Char → Option (Json × List Char)
  | 0, _, _ => none
  | fuel + 1, depth, cs =>
      match cs with
      | 'n' :: rest => (after? "ull".toList rest).map fun r => (.null, r)
      | 't' :: rest => (after? "rue".toList rest).map fun r => (.bool true, r)
      | 'f' :: rest => (after? "alse".toList rest).map fun r => (.bool false, r)
      | '"' :: rest => (readString? rest).map fun r => (.text (String.ofList r.1), r.2)
      | '[' :: rest =>
          if depth = 0 then none
          else
            match skipGap rest with
            | ']' :: rest => some (.list [], rest)
            | rest => (readItems? fuel (depth - 1) rest).map fun r => (.list r.1, r.2)
      | '\x7b' :: rest =>
          if depth = 0 then none
          else
            match skipGap rest with
            | '\x7d' :: rest => some (.object [], rest)
            | rest =>
                (readMembers? fuel (depth - 1) rest).map fun r => (.object (Fields.ofEntries r.1), r.2)
      | cs => (Number.read? cs).map fun r => (.number r.1, r.2)

/-- The items up to the closing bracket. -/
def readItems? : Nat → Nat → List Char → Option (List Json × List Char)
  | 0, _, _ => none
  | fuel + 1, depth, cs => do
      let item ← readValue? fuel depth cs
      match skipGap item.2 with
      | ',' :: rest => (readItems? fuel depth (skipGap rest)).map fun r => (item.1 :: r.1, r.2)
      | ']' :: rest => some ([item.1], rest)
      | _ => none

/-- The members up to the closing brace. -/
def readMembers? : Nat → Nat → List Char → Option (List (String × Json) × List Char)
  | 0, _, _ => none
  | fuel + 1, depth, cs => do
      match cs with
      | '"' :: rest =>
          let name ← readString? rest
          match skipGap name.2 with
          | ':' :: rest =>
              let value ← readValue? fuel depth (skipGap rest)
              let member := (String.ofList name.1, value.1)
              match skipGap value.2 with
              | ',' :: rest =>
                  (readMembers? fuel depth (skipGap rest)).map fun r => (member :: r.1, r.2)
              | '\x7d' :: rest => some ([member], rest)
              | _ => none
          | _ => none
      | _ => none

end

/-- The value written in a JSON text, if it is one value and nothing else. -/
def read? (s : String) : Option Json := do
  let cs := skipGap s.toList
  let result ← readValue? (cs.length + 1) 127 cs
  if (skipGap result.2).isEmpty then some result.1 else none

end LiveBinding.Json
