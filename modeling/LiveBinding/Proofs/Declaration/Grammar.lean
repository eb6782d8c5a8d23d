/-
# LiveBinding.Proofs.Declaration.Grammar -- declarations are read as their grammar has it

The grammar of declarations as derivations (`Derives`): a stretch of tokens, the
form it derives from, and what it writes.  Parentheses write what stands between
them, and a list of pairs keeps each key once, where it stands first, with the
expression it is given last (`Pair.settled`).

The reader takes tokens one at a time.  Along a derivation it goes from where the
stretch begins to where the stretch has been read (`Derives.reaches`); the other way
round, what it has taken so far always begins a derivation, whose open ends are the
frames of the stack (`Accounts`), and every token keeps it so (`Accounts.step`).
Together: a text is read exactly when its tokens derive from a declaration, and as
what the derivation writes (`read_iff_derives`).
-/
import Mathlib.Data.List.Basic
import LiveBinding.Declaration.Reading
import LiveBinding.Proofs.Fields

namespace LiveBinding

set_option autoImplicit false

/-! ## Each key once -/

namespace Pair

/-- What a list of pairs says of a key: where it stands first and its last
expression. -/
def summed (written : List Pair) (key : String) : Option Pair := do
  let first ← written.find? (·.key = key)
  let last ← written.reverse.find? (·.key = key)
  return ⟨key, first.offset, last.expr⟩

/-- The pairs with each key once, in the order in which the keys come first. -/
def settled (written : List Pair) : List Pair :=
  (written.map (·.key)).eraseDups.filterMap (summed written)

/-- A later pair with the same key leaves only its expression. -/
def replaced (later pair : Pair) : Pair :=
  if pair.key = later.key then { pair with expr := later.expr } else pair

variable {written : List Pair} {key : String} {later pair : Pair}

theorem summed_eq_some {entry : Pair} : summed written key = some entry ↔
    ∃ first last, written.find? (·.key = key) = some first ∧
      written.reverse.find? (·.key = key) = some last ∧ ⟨key, first.offset, last.expr⟩ = entry := by
  simp [summed, Option.bind_eq_some_iff]

theorem summed_of_mem (listed : key ∈ written.map (·.key)) :
    ∃ entry, summed written key = some entry := by
  obtain ⟨member, among, rfl⟩ := List.mem_map.mp listed
  obtain ⟨first, found⟩ : ∃ first, written.find? (·.key = member.key) = some first :=
    Option.isSome_iff_exists.mp (List.find?_isSome.mpr ⟨member, among, by simp⟩)
  obtain ⟨last, foundLast⟩ : ∃ last, written.reverse.find? (·.key = member.key) = some last :=
    Option.isSome_iff_exists.mp
      (List.find?_isSome.mpr ⟨member, List.mem_reverse.mpr among, by simp⟩)
  exact ⟨_, summed_eq_some.mpr ⟨first, last, found, foundLast, rfl⟩⟩

theorem keys_settled (written : List Pair) :
    (settled written).map (·.key) = (written.map (·.key)).eraseDups := by
  have each : ∀ keys : List String, (∀ key ∈ keys, key ∈ written.map (·.key)) →
      (keys.filterMap (summed written)).map (·.key) = keys := by
    intro keys listed
    induction keys with
    | nil => rfl
    | cons key rest ih =>
        obtain ⟨entry, found⟩ := summed_of_mem (listed key List.mem_cons_self)
        obtain ⟨first, last, -, -, rfl⟩ := summed_eq_some.mp found
        rw [List.filterMap_cons_some found, List.map_cons,
          ih fun other later => listed other (List.mem_cons_of_mem _ later)]
  exact each _ fun key among => List.mem_eraseDups.mp among

theorem nodup_keys_settled (written : List Pair) : ((settled written).map (·.key)).Nodup := by
  rw [keys_settled]
  exact Fields.nodup_eraseDups _

/-- Every expression that is kept is one that was written. -/
theorem expr_of_mem_settled (among : pair ∈ settled written) :
    ∃ other ∈ written, other.expr = pair.expr := by
  obtain ⟨key, -, found⟩ := List.mem_filterMap.mp among
  obtain ⟨first, last, -, foundLast, rfl⟩ := summed_eq_some.mp found
  exact ⟨last, List.mem_reverse.mp (List.mem_of_find?_eq_some foundLast), rfl⟩

/-- Every key that is kept stands where it was written. -/
theorem key_of_mem_settled (among : pair ∈ settled written) :
    ∃ other ∈ written, other.key = pair.key ∧ other.offset = pair.offset := by
  obtain ⟨key, -, found⟩ := List.mem_filterMap.mp among
  obtain ⟨first, last, foundFirst, -, rfl⟩ := summed_eq_some.mp found
  have same : first.key = key := by simpa using List.find?_some foundFirst
  exact ⟨first, List.mem_of_find?_eq_some foundFirst, same, rfl⟩

theorem summed_append_of_ne (different : later.key ≠ key) :
    summed (written ++ [later]) key = summed written key := by
  simp [summed, List.find?_append, different]

theorem summed_append_of_mem (listed : later.key ∈ written.map (·.key)) :
    summed (written ++ [later]) key = (summed written key).map (replaced later) := by
  by_cases same : later.key = key
  · subst same
    obtain ⟨entry, found⟩ := summed_of_mem listed
    obtain ⟨first, last, foundFirst, -, rfl⟩ := summed_eq_some.mp found
    rw [found, Option.map_some, replaced, if_pos rfl]
    refine summed_eq_some.mpr ⟨first, later, ?_, ?_, rfl⟩
    · rw [List.find?_append, foundFirst, Option.some_or]
    · simp
  · rw [summed_append_of_ne same]
    cases found : summed written key with
    | none => rfl
    | some entry =>
        obtain ⟨first, last, -, -, rfl⟩ := summed_eq_some.mp found
        rw [Option.map_some, replaced, if_neg (Ne.symm same)]

theorem settled_append_of_mem (listed : later.key ∈ written.map (·.key)) :
    settled (written ++ [later]) = (settled written).map (replaced later) := by
  have keys : ((written ++ [later]).map (·.key)).eraseDups = (written.map (·.key)).eraseDups := by
    rw [List.map_append]
    exact (Fields.eraseDups_concat _ _).trans (if_pos listed)
  rw [settled, keys, settled, List.map_filterMap]
  exact congrArg (List.filterMap · _) (funext fun key => summed_append_of_mem listed)

theorem settled_append_of_not_mem (new : later.key ∉ written.map (·.key)) :
    settled (written ++ [later]) = settled written ++ [later] := by
  have keys : ((written ++ [later]).map (·.key)).eraseDups =
      (written.map (·.key)).eraseDups ++ [later.key] := by
    rw [List.map_append]
    exact (Fields.eraseDups_concat _ _).trans (if_neg new)
  have absent : written.find? (·.key = later.key) = none := by
    refine List.find?_eq_none.mpr fun other among => ?_
    intro same
    exact new (List.mem_map.mpr ⟨other, among, of_decide_eq_true same⟩)
  have last : summed (written ++ [later]) later.key = some later := by
    refine summed_eq_some.mpr ⟨later, later, ?_, ?_, rfl⟩
    · simp [List.find?_append, absent]
    · simp
  rw [settled, keys, settled, List.filterMap_append, List.filterMap_cons_some last,
    List.filterMap_nil]
  congr 1
  refine List.filterMap_congr fun key among => summed_append_of_ne ?_
  rintro rfl
  exact new (List.mem_eraseDups.mp among)

theorem merge_of_not_mem {pairs : List Pair} (new : later.key ∉ pairs.map (·.key)) :
    merge later.key later.offset later.expr pairs = pairs ++ [later] := by
  induction pairs with
  | nil => rfl
  | cons first rest ih =>
      rw [List.map_cons, List.mem_cons, not_or] at new
      rw [merge, if_neg (Ne.symm new.1), ih new.2, List.cons_append]

theorem map_replaced_of_not_mem {pairs : List Pair} (new : later.key ∉ pairs.map (·.key)) :
    pairs.map (replaced later) = pairs := by
  have each : ∀ pair ∈ pairs, replaced later pair = pair := by
    intro pair among
    rw [replaced, if_neg]
    intro same
    exact new (List.mem_map.mpr ⟨pair, among, same⟩)
  exact (List.map_congr_left each).trans (List.map_id' pairs)

theorem merge_of_mem {pairs : List Pair} (distinct : (pairs.map (·.key)).Nodup)
    (listed : later.key ∈ pairs.map (·.key)) :
    merge later.key later.offset later.expr pairs = pairs.map (replaced later) := by
  induction pairs with
  | nil => simp at listed
  | cons first rest ih =>
      rw [List.map_cons, List.nodup_cons] at distinct
      rw [List.map_cons]
      by_cases same : first.key = later.key
      · rw [merge, if_pos same, map_replaced_of_not_mem (same ▸ distinct.1), replaced, if_pos same]
      · rw [List.map_cons, List.mem_cons] at listed
        rw [merge, if_neg same, replaced, if_neg same,
          ih distinct.2 (listed.resolve_left (Ne.symm same))]

/-- Merging one pair after another keeps each key where it stands first, with its last
expression. -/
theorem merge_settled (written : List Pair) (later : Pair) :
    merge later.key later.offset later.expr (settled written) = settled (written ++ [later]) := by
  have iff : later.key ∈ (settled written).map (·.key) ↔ later.key ∈ written.map (·.key) := by
    rw [keys_settled, List.mem_eraseDups]
  by_cases listed : later.key ∈ written.map (·.key)
  · rw [merge_of_mem (nodup_keys_settled written) (iff.mpr listed), settled_append_of_mem listed]
  · rw [merge_of_not_mem (mt iff.mp listed), settled_append_of_not_mem listed]

end Pair

/-! ## The grammar -/

namespace Expr

theorem mem_entryNames {entries : List (String × Expr)} {name : String × Nat} :
    name ∈ entryNames entries ↔ ∃ entry ∈ entries, name ∈ entry.2.names := by
  induction entries with
  | nil => simp [entryNames]
  | cons first rest ih => simp [entryNames, ih]

/-- The literals that are written as words. -/
def keyword? : String → Option Json
  | "true" => some (.bool true)
  | "false" => some (.bool false)
  | "null" => some .null
  | _ => none

mutual

/-- No object in the expression gives two expressions to one key. -/
def DistinctKeys : Expr → Prop
  | .name _ _ => True
  | .literal _ => True
  | .object entries => (entries.map Prod.fst).Nodup ∧ DistinctEntryKeys entries
  | .negation operand => operand.DistinctKeys

def DistinctEntryKeys : List (String × Expr) → Prop
  | [] => True
  | (_, value) :: rest => value.DistinctKeys ∧ DistinctEntryKeys rest

end

theorem ofName_eq (word : String) (offset : Nat) :
    ofName word offset =
      match keyword? word with
      | some value => .literal value
      | none => .name word offset := by
  by_cases isTrue : word = "true"
  · subst isTrue
    rfl
  by_cases isFalse : word = "false"
  · subst isFalse
    rfl
  by_cases isNull : word = "null"
  · subst isNull
    rfl
  have other : keyword? word = none := by
    unfold keyword?
    split
    · exact absurd rfl isTrue
    · exact absurd rfl isFalse
    · exact absurd rfl isNull
    · rfl
  rw [other, ofName, if_neg isTrue, if_neg isFalse, if_neg isNull]

theorem distinctEntryKeys_of_forall {entries : List (String × Expr)}
    (each : ∀ entry ∈ entries, entry.2.DistinctKeys) : DistinctEntryKeys entries := by
  induction entries with
  | nil => exact trivial
  | cons first rest ih =>
      exact ⟨each first List.mem_cons_self,
        ih fun entry later => each entry (List.mem_cons_of_mem _ later)⟩

end Expr

namespace Declaration

inductive IsKey : Token → String → Prop
  | name (key : String) : IsKey (.name key) key
  | text (key : String) : IsKey (.text key) key

/-- The forms of the grammar, with what they write. -/
inductive Form where
  /-- An expression. -/
  | expression (e : Expr)
  /-- A pair of a key and an expression. -/
  | pair (pair : Pair)
  /-- At least one pair, with commas between them. -/
  | series (pairs : List Pair)
  /-- A list of pairs, which may be empty or end with a comma; what an object
  holds, and a whole declaration. -/
  | list (pairs : List Pair)

/-- The grammar: `Derives ts form` when the tokens `ts` derive from the form. -/
inductive Derives : List Placed → Form → Prop
  | keyword {word : String} {value : Json} {offset : Nat} :
      Expr.keyword? word = some value →
      Derives [⟨.name word, offset⟩] (.expression (.literal value))
  | name {word : String} {offset : Nat} :
      Expr.keyword? word = none →
      Derives [⟨.name word, offset⟩] (.expression (.name word offset))
  | text (value : String) (offset : Nat) :
      Derives [⟨.text value, offset⟩] (.expression (.literal (.text value)))
  | number (value : Number) (offset : Nat) :
      Derives [⟨.number value, offset⟩] (.expression (.literal (.number value)))
  | negation {ts : List Placed} {e : Expr} (offset : Nat) :
      Derives ts (.expression e) →
      Derives (⟨.bang, offset⟩ :: ts) (.expression (.negation e))
  | parentheses {ts : List Placed} {e : Expr} (before after : Nat) :
      Derives ts (.expression e) →
      Derives (⟨.openParen, before⟩ :: (ts ++ [⟨.closeParen, after⟩])) (.expression e)
  | object {ts : List Placed} {pairs : List Pair} (before after : Nat) :
      Derives ts (.list pairs) →
      Derives (⟨.openBrace, before⟩ :: (ts ++ [⟨.closeBrace, after⟩]))
        (.expression (.object ((Pair.settled pairs).map fun pair => (pair.key, pair.expr))))
  | pair {token : Token} {key : String} {ts : List Placed} {e : Expr} (offset after : Nat) :
      IsKey token key →
      Derives ts (.expression e) →
      Derives (⟨token, offset⟩ :: ⟨.colon, after⟩ :: ts) (.pair ⟨key, offset, e⟩)
  | one {ts : List Placed} {pair : Pair} :
      Derives ts (.pair pair) →
      Derives ts (.series [pair])
  | more {ts us : List Placed} {pairs : List Pair} {pair : Pair} (offset : Nat) :
      Derives ts (.series pairs) →
      Derives us (.pair pair) →
      Derives (ts ++ ⟨.comma, offset⟩ :: us) (.series (pairs ++ [pair]))
  | empty : Derives [] (.list [])
  | full {ts : List Placed} {pairs : List Pair} :
      Derives ts (.series pairs) →
      Derives ts (.list pairs)
  | trailing {ts : List Placed} {pairs : List Pair} (offset : Nat) :
      Derives ts (.series pairs) →
      Derives (ts ++ [⟨.comma, offset⟩]) (.list pairs)

/-! ## Along a derivation -/

/-- Reading on from `s` over the tokens `ts` is reading on from `t` after them. -/
def Reaches (s : State) (ts : List Placed) (t : State) : Prop :=
  ∀ length rest, run length s (ts ++ rest) = run length t rest

namespace Reaches

variable {s t u : State} {placed : Placed} {ts us : List Placed}

theorem refl (s : State) : Reaches s [] s :=
  fun _ _ => rfl

theorem cons (taken : step s placed = .ok t) (further : Reaches t ts u) :
    Reaches s (placed :: ts) u := by
  intro length rest
  rw [List.cons_append, run, taken]
  exact further length rest

theorem append (first : Reaches s ts t) (second : Reaches t us u) : Reaches s (ts ++ us) u := by
  intro length rest
  rw [List.append_assoc, first, second]

theorem single (taken : step s placed = .ok t) : Reaches s [placed] t :=
  (Reaches.refl t).cons taken

end Reaches

/-- What reading does over a stretch that derives from a form. -/
def Form.Reads (ts : List Placed) : Form → Prop
  | .expression e => ∀ stack, stack ≠ [] → Reaches (.expression stack) ts (deliver e stack)
  | .pair last => ∀ written stack,
      Reaches (.key (Pair.settled written) stack) ts
        (.separator (Pair.settled (written ++ [last])) stack)
  | .series pairs => ∀ stack,
      Reaches (.key [] stack) ts (.separator (Pair.settled pairs) stack)
  | .list pairs => ∀ stack,
      Reaches (.key [] stack) ts (.key (Pair.settled pairs) stack) ∨
        Reaches (.key [] stack) ts (.separator (Pair.settled pairs) stack)

theorem step_key_of_isKey {token : Token} {key : String} (isKey : IsKey token key)
    (pairs : List Pair) (stack : List Frame) (offset : Nat) :
    step (.key pairs stack) ⟨token, offset⟩ = .ok (.colon pairs key offset stack) := by
  cases isKey <;> rfl

theorem step_name (stack : List Frame) (word : String) (offset : Nat) :
    step (.expression stack) ⟨.name word, offset⟩ = .ok (deliver (.ofName word offset) stack) :=
  rfl

theorem Derives.reaches {ts : List Placed} {form : Form} (derives : Derives ts form) :
    form.Reads ts := by
  induction derives with
  | keyword isKeyword =>
      intro stack _
      refine .single ?_
      rw [step_name, Expr.ofName_eq, isKeyword]
  | name notKeyword =>
      intro stack _
      refine .single ?_
      rw [step_name, Expr.ofName_eq, notKeyword]
  | text => exact fun stack _ => .single rfl
  | number => exact fun stack _ => .single rfl
  | negation offset _ ih =>
      intro stack _
      exact .cons rfl (ih (.negation :: stack) (List.cons_ne_nil _ _))
  | parentheses before after _ ih =>
      intro stack _
      exact .cons rfl ((ih (.parenthesis :: stack) (List.cons_ne_nil _ _)).append (.single rfl))
  | object before after _ ih =>
      intro stack waiting
      have notEmpty : stack.isEmpty = false := by simpa using waiting
      refine .cons rfl ?_
      rcases ih stack with read | read
      · refine read.append (.single ?_)
        simp [step, notEmpty, objectOf]
      · refine read.append (.single ?_)
        simp [step, notEmpty, objectOf]
  | @pair token key ts e offset after isKey _ ih =>
      intro written stack
      have read := ih (.pair (Pair.settled written) key offset :: stack) (List.cons_ne_nil _ _)
      rw [deliver, Pair.merge_settled written ⟨key, offset, e⟩] at read
      exact .cons (step_key_of_isKey isKey _ _ _) (.cons rfl read)
  | one _ ih => exact ih []
  | more offset _ _ ihSeries ihPair =>
      intro stack
      exact (ihSeries stack).append (.cons rfl (ihPair _ stack))
  | empty => exact fun stack => .inl (.refl _)
  | full _ ih => exact fun stack => .inr (ih stack)
  | trailing offset _ ih => exact fun stack => .inl ((ih stack).append (.single rfl))

/-! ## What has been taken begins a derivation -/

/-- Nothing, or pairs with a comma after each: what may stand before a further key. -/
inductive Comes : List Placed → List Pair → Prop
  | nothing : Comes [] []
  | pairs {ts : List Placed} {pairs : List Pair} (offset : Nat) :
      Derives ts (.series pairs) → Comes (ts ++ [⟨.comma, offset⟩]) pairs

mutual

/-- The tokens lead to where a list of pairs begins. -/
inductive Begins : List Frame → List Placed → Prop
  | outermost : Begins [] []
  | object {frame : Frame} {stack : List Frame} {ts : List Placed} (offset : Nat) :
      Awaits (frame :: stack) ts → Begins (frame :: stack) (ts ++ [⟨.openBrace, offset⟩])

/-- The tokens lead to where an expression is waited for. -/
inductive Awaits : List Frame → List Placed → Prop
  | negation {stack : List Frame} {ts : List Placed} (offset : Nat) :
      Awaits stack ts → Awaits (.negation :: stack) (ts ++ [⟨.bang, offset⟩])
  | parenthesis {stack : List Frame} {ts : List Placed} (offset : Nat) :
      Awaits stack ts → Awaits (.parenthesis :: stack) (ts ++ [⟨.openParen, offset⟩])
  | pair {stack : List Frame} {ts us : List Placed} {pairs : List Pair} {token : Token}
      {key : String} (offset after : Nat) :
      Begins stack ts → Comes us pairs → IsKey token key →
      Awaits (.pair (Pair.settled pairs) key offset :: stack)
        (ts ++ us ++ [⟨token, offset⟩, ⟨.colon, after⟩])

end

/-- The tokens taken so far are what the state says. -/
inductive Accounts : State → List Placed → Prop
  | key {stack : List Frame} {ts us : List Placed} {pairs : List Pair} :
      Begins stack ts → Comes us pairs →
      Accounts (.key (Pair.settled pairs) stack) (ts ++ us)
  | colon {stack : List Frame} {ts us : List Placed} {pairs : List Pair} {token : Token}
      {key : String} (offset : Nat) :
      Begins stack ts → Comes us pairs → IsKey token key →
      Accounts (.colon (Pair.settled pairs) key offset stack) (ts ++ us ++ [⟨token, offset⟩])
  | expression {stack : List Frame} {ts : List Placed} :
      Awaits stack ts → Accounts (.expression stack) ts
  | closing {stack : List Frame} {ts us : List Placed} {e : Expr} (offset : Nat) :
      Awaits stack ts → Derives us (.expression e) →
      Accounts (.closing e stack) (ts ++ ⟨.openParen, offset⟩ :: us)
  | separator {stack : List Frame} {ts us : List Placed} {pairs : List Pair} :
      Begins stack ts → Derives us (.series pairs) →
      Accounts (.separator (Pair.settled pairs) stack) (ts ++ us)

/-- Pairs and one more pair are pairs. -/
theorem Comes.series {ts us : List Placed} {pairs : List Pair} {pair : Pair}
    (comes : Comes ts pairs) (derives : Derives us (.pair pair)) :
    Derives (ts ++ us) (.series (pairs ++ [pair])) := by
  cases comes with
  | nothing => exact .one derives
  | pairs offset before =>
      rw [List.append_assoc, List.singleton_append]
      exact .more offset before derives

theorem Comes.list {ts : List Placed} {pairs : List Pair} (comes : Comes ts pairs) :
    Derives ts (.list pairs) := by
  cases comes with
  | nothing => exact .empty
  | pairs offset before => exact .trailing offset before

/-- An expression that was waited for is accounted for once it is handed over. -/
theorem accounts_deliver {stack : List Frame} {ts us : List Placed} {e : Expr}
    (awaits : Awaits stack ts) (derives : Derives us (.expression e)) :
    Accounts (deliver e stack) (ts ++ us) := by
  induction stack generalizing ts us e with
  | nil => cases awaits
  | cons frame stack ih =>
      cases awaits with
      | negation offset awaits =>
          have read := ih awaits (.negation offset derives)
          simpa [deliver] using read
      | parenthesis offset awaits =>
          have read := Accounts.closing offset awaits derives
          simpa [deliver] using read
      | pair offset after begins comes isKey =>
          have read := Accounts.separator begins (comes.series (.pair offset after isKey derives))
          rw [← Pair.merge_settled] at read
          simpa [deliver] using read

theorem accounts_object {stack : List Frame} {ts us : List Placed} {pairs : List Pair}
    (nonempty : stack.isEmpty = false) (begins : Begins stack ts)
    (derives : Derives us (.list pairs)) (offset : Nat) :
    Accounts (deliver (objectOf (Pair.settled pairs)) stack)
      (ts ++ us ++ [⟨.closeBrace, offset⟩]) := by
  cases begins with
  | outermost => cases nonempty
  | object before awaits =>
      have read := accounts_deliver awaits (.object before offset derives)
      simpa [objectOf] using read

/-- An object begins where an expression is waited for. -/
theorem Awaits.object {stack : List Frame} {ts : List Placed} (awaits : Awaits stack ts)
    (offset : Nat) : Begins stack (ts ++ [⟨.openBrace, offset⟩]) := by
  cases stack with
  | nil => cases awaits
  | cons frame stack => exact .object offset awaits

/-- Every token that is taken is accounted for. -/
theorem Accounts.step {s t : State} {ts : List Placed} {placed : Placed}
    (accounts : Accounts s ts) (taken : Declaration.step s placed = .ok t) :
    Accounts t (ts ++ [placed]) := by
  obtain ⟨token, offset⟩ := placed
  cases accounts with
  | key begins comes =>
      cases token <;> simp only [Declaration.step, Except.ok.injEq, reduceCtorEq] at taken
      case name key => exact taken ▸ .colon offset begins comes (.name key)
      case text key => exact taken ▸ .colon offset begins comes (.text key)
      case closeBrace =>
          split at taken
          · cases taken
          · rename_i nonempty
            cases taken
            exact accounts_object (by simpa using nonempty) begins comes.list offset
  | colon before begins comes isKey =>
      cases token <;> simp only [Declaration.step, Except.ok.injEq, reduceCtorEq] at taken
      case colon =>
          have awaits := Awaits.pair before offset begins comes isKey
          exact taken ▸ .expression (by simpa using awaits)
  | expression awaits =>
      cases token <;> simp only [Declaration.step, Except.ok.injEq, reduceCtorEq] at taken
      case bang => exact taken ▸ .expression (.negation offset awaits)
      case openParen => exact taken ▸ .expression (.parenthesis offset awaits)
      case name word =>
          subst taken
          refine accounts_deliver awaits ?_
          rw [Expr.ofName_eq]
          split
          · rename_i isKeyword
            exact .keyword isKeyword
          · rename_i notKeyword
            exact .name notKeyword
      case text value => exact taken ▸ accounts_deliver awaits (.text value offset)
      case number value => exact taken ▸ accounts_deliver awaits (.number value offset)
      case openBrace =>
          have read := Accounts.key (awaits.object offset) .nothing
          subst taken
          simpa [Pair.settled] using read
  | closing before awaits derives =>
      cases token <;> simp only [Declaration.step, Except.ok.injEq, reduceCtorEq] at taken
      case closeParen =>
          have read := accounts_deliver awaits (.parentheses before offset derives)
          subst taken
          simpa using read
  | separator begins derives =>
      cases token <;> simp only [Declaration.step] at taken
      case comma =>
          cases taken
          have read := Accounts.key begins (.pairs offset derives)
          simpa using read
      case closeBrace =>
          split at taken
          · cases taken
          · rename_i nonempty
            cases taken
            exact accounts_object (by simpa using nonempty) begins (.full derives) offset
      all_goals (split at taken <;> cases taken)

/-- What is read to its end derives from a declaration. -/
theorem Accounts.run {length : Nat} {s : State} {ts rest : List Placed} {pairs : List Pair}
    (accounts : Accounts s ts) (read : Declaration.run length s rest = .ok pairs) :
    ∃ written, Derives (ts ++ rest) (.list written) ∧ pairs = Pair.settled written := by
  induction rest generalizing s ts with
  | nil =>
      rw [List.append_nil]
      cases accounts with
      | key begins comes =>
          cases begins with
          | outermost => exact ⟨_, comes.list, (Except.ok.inj read).symm⟩
          | object => cases read
      | separator begins derives =>
          cases begins with
          | outermost => exact ⟨_, .full derives, (Except.ok.inj read).symm⟩
          | object => cases read
      | colon | expression | closing => cases read
  | cons placed rest ih =>
      rw [Declaration.run] at read
      cases taken : Declaration.step s placed with
      | error e =>
          rw [taken] at read
          cases read
      | ok t =>
          rw [taken] at read
          obtain ⟨written, derives, same⟩ := ih (accounts.step taken) read
          exact ⟨written, by simpa using derives, same⟩

/-! ## Reading a declaration -/

theorem run_iff_derives {length : Nat} {ts : List Placed} {pairs : List Pair} :
    run length (.key [] []) ts = .ok pairs ↔
      ∃ written, Derives ts (.list written) ∧ pairs = Pair.settled written := by
  constructor
  · intro read
    exact (Accounts.key .outermost .nothing).run read
  · rintro ⟨written, derives, rfl⟩
    rcases derives.reaches [] with read | read
    · have ended := read length []
      rwa [List.append_nil] at ended
    · have ended := read length []
      rwa [List.append_nil] at ended

/-- No two operators of the declaration have one name, and no object in it gives two
expressions to one key. -/
def HasDistinctKeys (d : Declaration) : Prop :=
  d.operators.Nodup ∧ ∀ pair ∈ d.pairs, pair.expr.DistinctKeys

def Form.IsDistinct : Form → Prop
  | .expression e => e.DistinctKeys
  | .pair last => last.expr.DistinctKeys
  | .series pairs => ∀ p ∈ pairs, p.expr.DistinctKeys
  | .list pairs => ∀ p ∈ pairs, p.expr.DistinctKeys

theorem distinctKeys_of_mem_settled {written : List Pair} {pair : Pair}
    (each : ∀ other ∈ written, other.expr.DistinctKeys) (among : pair ∈ Pair.settled written) :
    pair.expr.DistinctKeys := by
  obtain ⟨other, listed, same⟩ := Pair.expr_of_mem_settled among
  exact same ▸ each other listed

theorem Derives.isDistinct {ts : List Placed} {form : Form} (derives : Derives ts form) :
    form.IsDistinct := by
  induction derives with
  | keyword | name | text | number => exact trivial
  | negation _ _ ih | parentheses _ _ _ ih | pair _ _ _ _ ih => exact ih
  | object _ _ _ ih =>
      refine ⟨?_, Expr.distinctEntryKeys_of_forall fun entry among => ?_⟩
      · rw [List.map_map]
        exact Pair.nodup_keys_settled _
      · obtain ⟨pair, kept, rfl⟩ := List.mem_map.mp among
        exact distinctKeys_of_mem_settled ih kept
  | one _ ih => exact fun pair among => List.mem_singleton.mp among ▸ ih
  | more _ _ _ ihSeries ihPair =>
      intro pair among
      rcases List.mem_append.mp among with before | last
      · exact ihSeries pair before
      · exact List.mem_singleton.mp last ▸ ihPair
  | empty => exact fun pair among => absurd among List.not_mem_nil
  | full _ ih | trailing _ _ ih => exact ih

/-- A text is read exactly when it can be cut into tokens that derive from a
declaration.  It is read as what the derivation writes, each operator once, and
then every key in it is distinct from the others beside it. -/
theorem read_iff_derives (selector text : String) (d : Declaration) :
    (read selector text = .ok d ↔
      ∃ ts written, tokens text = .ok ts ∧ Derives ts (.list written) ∧
        d = ⟨selector, text, Pair.settled written⟩) ∧
    (read selector text = .ok d → d.HasDistinctKeys) := by
  have exactly : read selector text = .ok d ↔
      ∃ ts written, tokens text = .ok ts ∧ Derives ts (.list written) ∧
        d = ⟨selector, text, Pair.settled written⟩ := by
    rw [read, readPairs]
    cases cut : tokens text with
    | error e => simp [bind, Except.bind]
    | ok ts =>
        constructor
        · intro result
          cases ended : run text.utf8ByteSize (.key [] []) ts with
          | error e => simp [bind, Except.bind, ended] at result
          | ok pairs =>
              obtain ⟨written, derives, same⟩ := run_iff_derives.mp ended
              simp [bind, Except.bind, ended] at result
              exact ⟨ts, written, rfl, derives, by rw [← result, same]⟩
        · rintro ⟨ts', written, same, derives, rfl⟩
          cases same
          have ended : run text.utf8ByteSize (.key [] []) ts = .ok (Pair.settled written) :=
            run_iff_derives.mpr ⟨written, derives, rfl⟩
          simp [bind, Except.bind, ended]
  refine ⟨exactly, fun result => ?_⟩
  obtain ⟨ts, written, -, derives, rfl⟩ := exactly.mp result
  exact ⟨Pair.nodup_keys_settled written,
    fun pair kept => distinctKeys_of_mem_settled derives.isDistinct kept⟩

/-- A repeated operator keeps its place; `true` is a name where a key stands. -/
example : (read "p" "a: (x), true: 1, a: !y,").toOption.map (·.operators) =
    some ["a", "true"] := by
  decide +kernel

end Declaration

end LiveBinding
