/-
# LiveBinding.Proofs.Configuration.Spelling -- templates written out and read back

A list of segments is normal when no text is empty, no two texts are adjacent, and every
name of a field is one that the braces give back: not empty, with no blank at either end and
no closing brace.  Written out, a text has its braces doubled and a field stands in single
braces, a blank on either side of its name.

Reading undoes writing on normal lists, and gives nothing but normal lists
(`Template.read_write`).  The scanner takes braces two at a time, from the left; the blank
after the brace of a field is what keeps that brace apart from the doubled ones before it.

* `scanText_double`: a doubled text is gathered as it was;
* `scanText_field`: a field ends the text before it, and its name comes back trimmed;
* `givesNormal_scan`: the two scanners give normal lists only.
-/
import LiveBinding.Template
import Mathlib.Data.List.Chain
import Mathlib.Data.List.DropRight

namespace LiveBinding

set_option autoImplicit false

namespace Text

theorem trimStart_trimStart (cs : List Char) : trimStart (trimStart cs) = trimStart cs :=
  List.dropWhile_idempotent isBlank cs

theorem trimStart_suffix (cs : List Char) : trimStart cs <:+ cs :=
  List.dropWhile_suffix isBlank

/-- What is not shortened by trimming has no blank before it. -/
theorem trimStart_of_trimChars {cs : List Char} (trimmed : trimChars cs = cs) :
    trimStart cs = cs := by
  have lengths := congrArg List.length trimmed
  have shorter := (trimStart_suffix (trimStart cs).reverse).length_le
  rw [trimChars, List.length_reverse] at lengths
  rw [List.length_reverse] at shorter
  exact (trimStart_suffix cs).eq_of_length_le (by omega)

/-- A blank after a text without blanks before it is not one before it. -/
theorem trimStart_append {cs : List Char} (some_ : cs ≠ []) (trimmed : trimStart cs = cs)
    (more : List Char) : trimStart (cs ++ more) = cs ++ more := by
  cases cs with
  | nil => exact absurd rfl some_
  | cons c rest =>
      refine List.dropWhile_eq_self_iff.mpr fun nonempty => ?_
      exact List.dropWhile_eq_self_iff.mp trimmed (Nat.succ_pos _)

theorem trimChars_trimChars (cs : List Char) : trimChars (trimChars cs) = trimChars cs := by
  -- What is left of `trimStart cs` begins as `trimStart cs` does, so with no blank.
  obtain ⟨dropped, whole⟩ : trimChars cs <+: trimStart cs :=
    List.rdropWhile_prefix isBlank (trimStart cs)
  have start : trimStart (trimChars cs) = trimChars cs := by
    refine List.dropWhile_eq_self_iff.mpr fun nonempty => ?_
    have first := List.dropWhile_eq_self_iff.mp (trimStart_trimStart cs)
      (by rw [← whole, List.length_append]; omega)
    simpa only [← whole, List.getElem_append_left nonempty] using first
  rw [trimChars, start, trimChars, List.reverse_reverse, trimStart_trimStart]

theorem mem_of_mem_trimChars {c : Char} {cs : List Char} (kept : c ∈ trimChars cs) : c ∈ cs := by
  have inner := (trimStart_suffix _).mem (List.mem_reverse.mp kept)
  exact (trimStart_suffix cs).mem (List.mem_reverse.mp inner)

/-- A blank on either side of a trimmed text is trimmed off. -/
theorem trimChars_padded {cs : List Char} (some_ : cs ≠ []) (trimmed : trimChars cs = cs) :
    trimChars (' ' :: (cs ++ [' '])) = cs := by
  have blank : isBlank ' ' = true := by decide
  have start : trimStart cs = cs := trimStart_of_trimChars trimmed
  have before : trimStart (' ' :: (cs ++ [' '])) = cs ++ [' '] :=
    (List.dropWhile_cons_of_pos blank).trans (trimStart_append some_ start [' '])
  have after : trimStart (cs ++ [' ']).reverse = trimStart cs.reverse := by
    rw [List.reverse_append]
    exact List.dropWhile_cons_of_pos blank
  rw [trimChars, before, after]
  rw [trimChars, start] at trimmed
  exact trimmed

end Text

namespace Template

/-! ## Normal lists and their spelling -/

/-- A segment that reading can give. -/
def Segment.IsProper : Segment → Prop
  | .text value => value ≠ ""
  | .field name => name ≠ "" ∧ Text.trim name = name ∧ '\x7d' ∉ name.toList

/-- Not both are texts. -/
def Segment.Apart : Segment → Segment → Prop
  | .text _, .text _ => False
  | _, _ => True

/-- A list of segments that reading can give. -/
structure IsNormal (segments : List Segment) : Prop where
  proper : ∀ segment ∈ segments, segment.IsProper
  apart : segments.IsChain Segment.Apart

instance (segment : Segment) : Decidable segment.IsProper :=
  match segment with
  | .text value => inferInstanceAs (Decidable (value ≠ ""))
  | .field name =>
      inferInstanceAs (Decidable (name ≠ "" ∧ Text.trim name = name ∧ '\x7d' ∉ name.toList))

instance : DecidableRel Segment.Apart
  | .text _, .text _ => isFalse id
  | .text _, .field _ => isTrue trivial
  | .field _, _ => isTrue trivial

instance (segments : List Segment) : Decidable (IsNormal segments) :=
  decidable_of_iff ((∀ segment ∈ segments, segment.IsProper) ∧ segments.IsChain Segment.Apart)
    ⟨fun normal => ⟨normal.1, normal.2⟩, fun normal => ⟨normal.proper, normal.apart⟩⟩

/-- A text with its braces doubled. -/
def double (cs : List Char) : List Char :=
  cs.flatMap fun c => if c = '\x7b' ∨ c = '\x7d' then [c, c] else [c]

def Segment.spell : Segment → List Char
  | .text value => double value.toList
  | .field name => '\x7b' :: ' ' :: (name.toList ++ [' ', '\x7d'])

def write (segments : List Segment) : String :=
  String.ofList (segments.flatMap Segment.spell)

/-- The texts of segments, and what their fields show, one after another. -/
def shown (look : String → Json) : List Segment → String
  | [] => ""
  | .text value :: rest => value ++ shown look rest
  | .field name :: rest => (look name).displayText ++ shown look rest

theorem isNormal_nil : IsNormal [] :=
  ⟨fun _ none => absurd none List.not_mem_nil, .nil⟩

theorem isNormal_cons_iff {segment : Segment} {rest : List Segment} :
    IsNormal (segment :: rest) ↔
      segment.IsProper ∧ (∀ next ∈ rest.head?, segment.Apart next) ∧ IsNormal rest := by
  constructor
  · rintro ⟨proper, apart⟩
    obtain ⟨first, others⟩ := List.forall_mem_cons.mp proper
    obtain ⟨next, chain⟩ := List.isChain_cons.mp apart
    exact ⟨first, next, others, chain⟩
  · rintro ⟨first, next, others, chain⟩
    exact ⟨List.forall_mem_cons.mpr ⟨first, others⟩, List.isChain_cons.mpr ⟨next, chain⟩⟩

theorem render_eq_shown (look : String → Json) (segments : List Segment) :
    render look ⟨segments⟩ = shown look segments := by
  induction segments with
  | nil => rfl
  | cons segment rest ih =>
      have first : render look ⟨segment :: rest⟩ = segment.fill look ++ render look ⟨rest⟩ :=
        String.join_cons
      rw [first, ih]
      cases segment <;> rfl

/-! ## Reading what was written -/

theorem double_cons (c : Char) (rest : List Char) :
    double (c :: rest) = (if c = '\x7b' ∨ c = '\x7d' then [c, c] else [c]) ++ double rest :=
  List.flatMap_cons

/-- A doubled text is gathered as it was. -/
theorem scanText_double (cs gathered more : List Char) (offset : Nat) :
    ∃ offset', scanText gathered offset (double cs ++ more) =
      scanText (cs.reverse ++ gathered) offset' more := by
  induction cs generalizing gathered offset with
  | nil => exact ⟨offset, rfl⟩
  | cons c rest ih =>
      have through : ∃ offset', scanText gathered offset (double (c :: rest) ++ more) =
          scanText (c :: gathered) offset' (double rest ++ more) := by
        rw [double_cons]
        by_cases opens : c = '\x7b'
        · subst opens
          exact ⟨_, rfl⟩
        by_cases closes : c = '\x7d'
        · subst closes
          exact ⟨_, rfl⟩
        rw [if_neg (not_or.mpr ⟨opens, closes⟩), List.append_assoc, List.singleton_append,
          scanText.eq_5 _ _ _ _ (fun _ same => absurd same opens)
            (fun _ same => absurd same closes) opens, if_neg closes]
        exact ⟨_, rfl⟩
      obtain ⟨next, stepped⟩ := through
      obtain ⟨last, run⟩ := ih (c :: gathered) next
      refine ⟨last, ?_⟩
      rw [stepped, run, List.reverse_cons, List.append_assoc, List.singleton_append]

/-- A name is gathered up to the brace that closes it. -/
theorem scanField_name {cs : List Char} (open_ : '\x7d' ∉ cs) (gathered name more : List Char)
    (start offset : Nat) :
    ∃ offset', scanField gathered start name offset (cs ++ more) =
      scanField gathered start (cs.reverse ++ name) offset' more := by
  induction cs generalizing name offset with
  | nil => exact ⟨offset, rfl⟩
  | cons c rest ih =>
      obtain ⟨other, others⟩ := not_or.mp (mt List.mem_cons.mpr open_)
      obtain ⟨last, run⟩ := ih others (c :: name) (offset + c.utf8Size)
      refine ⟨last, ?_⟩
      rw [List.cons_append, scanField, if_neg (Ne.symm other), run, List.reverse_cons,
        List.append_assoc, List.singleton_append]

/-- A field ends the text before it, and its name comes back as it was written. -/
theorem scanText_field {field : String} (proper : (Segment.field field).IsProper)
    (gathered more : List Char) (offset : Nat) :
    ∃ offset', scanText gathered offset ((Segment.field field).spell ++ more) =
      (scanText [] offset' more).map fun rest => flush gathered ++ .field field :: rest := by
  obtain ⟨nonempty, trimmed, closes⟩ := proper
  have some_ : field.toList ≠ [] := fun none => nonempty (String.toList_eq_nil_iff.mp none)
  have same : Text.trimChars field.toList = field.toList := by
    rw [← String.toList_ofList (l := Text.trimChars field.toList)]
    exact congrArg String.toList trimmed
  have padded : '\x7d' ∉ ' ' :: (field.toList ++ [' ']) := by
    simp only [List.mem_cons, List.mem_append, List.not_mem_nil, or_false, not_or]
    exact ⟨by decide, closes, by decide⟩
  obtain ⟨close, named⟩ := scanField_name padded gathered [] ('\x7d' :: more) offset (offset + 1)
  have opened : scanText gathered offset ((Segment.field field).spell ++ more) =
      scanField gathered offset [] (offset + 1)
        (' ' :: (field.toList ++ [' ']) ++ '\x7d' :: more) := by
    simp only [Segment.spell, List.cons_append, List.append_assoc, List.nil_append]
    rw [scanText.eq_4 _ _ _ (by simp)]
  refine ⟨close + 1, ?_⟩
  rw [opened, named, scanField, if_pos rfl, List.append_nil, List.reverse_reverse,
    Text.trimChars_padded some_ same, if_neg (by simpa using some_), String.ofList_toList]
  cases scanText [] (close + 1) more <;> rfl

theorem flush_reverse {value : String} (proper : value ≠ "") :
    flush value.toList.reverse = [.text value] := by
  have some_ : value.toList ≠ [] := fun none => proper (String.toList_eq_nil_iff.mp none)
  rw [flush, if_neg (by simpa using some_), List.reverse_reverse, String.ofList_toList]

/-- The spelling of a normal list is read as that list, after a text that is still being
gathered if the list does not go on with a text. -/
theorem scanText_spell {segments : List Segment} (normal : IsNormal segments)
    (gathered : List Char) (offset : Nat)
    (apart : gathered ≠ [] → ∀ value, segments.head? ≠ some (.text value)) :
    scanText gathered offset (segments.flatMap Segment.spell) =
      .ok (flush gathered ++ segments) := by
  induction segments generalizing gathered offset with
  | nil => rw [List.flatMap_nil, scanText, List.append_nil]
  | cons segment rest ih =>
      obtain ⟨proper, next, others⟩ := isNormal_cons_iff.mp normal
      rw [List.flatMap_cons]
      cases segment with
      | text value =>
          obtain rfl : gathered = [] := by
            by_contra nonempty
            exact apart nonempty value rfl
          obtain ⟨after, run⟩ := scanText_double value.toList [] (rest.flatMap Segment.spell) offset
          rw [Segment.spell, run, List.append_nil,
            ih others _ _ fun _ other here => next (.text other) here, flush_reverse proper]
          rfl
      | field name =>
          obtain ⟨after, run⟩ := scanText_field proper gathered (rest.flatMap Segment.spell) offset
          rw [run, ih others [] after fun none => absurd rfl none]
          rfl

/-! ## What reading gives -/

/-- Nothing is given but normal lists. -/
def GivesNormal (outcome : Except Fault (List Segment)) : Prop :=
  ∀ segments, outcome = .ok segments → IsNormal segments

theorem isNormal_flush (gathered : List Char) : IsNormal (flush gathered) := by
  unfold flush
  split
  · exact isNormal_nil
  next nonempty =>
      refine isNormal_cons_iff.mpr ⟨fun empty => nonempty ?_, ?_, isNormal_nil⟩
      · simpa using congrArg String.toList empty
      · exact fun next none => absurd none (Option.not_mem_none next)

/-- A field parts the text before it from what follows. -/
theorem isNormal_flush_field (gathered : List Char) {name : String} {more : List Segment}
    (proper : (Segment.field name).IsProper) (normal : IsNormal more) :
    IsNormal (flush gathered ++ .field name :: more) := by
  have fielded : IsNormal (.field name :: more) :=
    isNormal_cons_iff.mpr ⟨proper, fun next _ => by trivial, normal⟩
  have flushed := isNormal_flush gathered
  unfold flush at flushed ⊢
  split
  · exact fielded
  next nonempty =>
      rw [if_neg nonempty] at flushed
      exact isNormal_cons_iff.mpr
        ⟨(isNormal_cons_iff.mp flushed).1, fun next here => by cases here; trivial, fielded⟩

/-- A name that is trimmed and not empty can stand in braces, if no brace closed it. -/
theorem isProper_field {cs : List Char} (open_ : '\x7d' ∉ cs)
    (nonempty : (Text.trimChars cs).isEmpty ≠ true) :
    (Segment.field (String.ofList (Text.trimChars cs))).IsProper := by
  refine ⟨fun none => nonempty ?_, ?_, fun closes => open_ ?_⟩
  · simpa using congrArg String.toList none
  · rw [Text.trim, String.toList_ofList, Text.trimChars_trimChars]
  · rw [String.toList_ofList] at closes
    exact Text.mem_of_mem_trimChars closes

/-- Both scanners give normal lists only, whatever they have gathered: the one in a field
because no closing brace is part of the name. -/
theorem givesNormal_scan :
    (∀ gathered offset cs, GivesNormal (scanText gathered offset cs)) ∧
      ∀ gathered start name offset cs, '\x7d' ∉ name →
        GivesNormal (scanField gathered start name offset cs) := by
  refine scanText.mutual_induct (fun gathered offset cs => GivesNormal (scanText gathered offset cs))
    (fun gathered start name offset cs => '\x7d' ∉ name →
      GivesNormal (scanField gathered start name offset cs)) ?_ ?_ ?_ ?_ ?_ ?_ ?_ ?_ ?_ ?_
  case refine_1 =>
    rintro gathered offset segments ⟨⟩
    exact isNormal_flush gathered
  case refine_2 => exact fun gathered offset rest ih => ih
  case refine_3 => exact fun gathered offset rest ih => ih
  case refine_4 =>
    intro gathered offset rest single ih
    rw [scanText.eq_4 _ _ _ single]
    exact ih List.not_mem_nil
  case refine_5 =>
    intro gathered offset rest single double other segments given
    rw [scanText.eq_5 _ _ _ _ single double other, if_pos rfl] at given
    cases given
  case refine_6 =>
    intro gathered offset c rest single double opens closes ih
    rw [scanText.eq_5 _ _ _ _ single double opens, if_neg closes]
    exact ih
  case refine_7 =>
    intro gathered start name offset open_ segments given
    cases given
  case refine_8 =>
    intro gathered start name offset rest trimmed empty open_ segments given
    rw [scanField, if_pos rfl, if_pos empty] at given
    cases given
  case refine_9 =>
    intro gathered start name offset rest trimmed nonempty ih open_ segments given
    rw [scanField, if_pos rfl, if_neg nonempty] at given
    cases read : scanText [] (offset + 1) rest with
    | error fault =>
        rw [read] at given
        cases given
    | ok more =>
        rw [read] at given
        cases given
        have proper := isProper_field (mt List.mem_reverse.mp open_) nonempty
        exact isNormal_flush_field gathered proper (ih more read)
  case refine_10 =>
    intro gathered start name offset c rest closes ih open_
    rw [scanField, if_neg closes]
    exact ih fun listed => (List.mem_cons.mp listed).elim (fun same => closes same.symm) open_

theorem isNormal_of_read {source : String} {t : Template} (given : read source = .ok t) :
    IsNormal t.segments := by
  unfold read at given
  cases scanned : scanText [] 0 source.toList with
  | error fault =>
      rw [scanned] at given
      cases given
  | ok segments =>
      rw [scanned] at given
      cases given
      exact givesNormal_scan.1 [] 0 source.toList segments scanned

theorem read_of_isNormal {segments : List Segment} (normal : IsNormal segments) :
    read (write segments) = .ok ⟨segments⟩ := by
  have scanned := scanText_spell normal [] 0 fun none => absurd rfl none
  rw [read, write, String.toList_ofList, scanned]
  rfl

/-- A text with its braces doubled is read as itself. -/
theorem read_double (s : String) :
    read (String.ofList (double s.toList)) = .ok ⟨flush s.toList.reverse⟩ := by
  obtain ⟨last, scanned⟩ := scanText_double s.toList [] [] 0
  rw [List.append_nil, List.append_nil] at scanned
  rw [read, String.toList_ofList, scanned, scanText]
  rfl

theorem shown_flush_reverse (look : String → Json) (s : String) :
    shown look (flush s.toList.reverse) = s := by
  by_cases empty : s = ""
  · subst empty
    rfl
  · rw [flush_reverse empty]
    exact String.append_empty

/-- Reading and writing templates, and what is rendered.  Just the normal lists are read
back from their spelling, and whatever source is read as a template gives a normal list, the
one that its spelling gives again; a template renders as its texts and what its fields show, in
their order; and a text whose braces are doubled is a template that renders as the text. -/
theorem read_write (source : String) (segments : List Segment) (look : String → Json) :
    (read (write segments) = .ok ⟨segments⟩ ↔ IsNormal segments) ∧
      (∀ t, read source = .ok t → IsNormal t.segments ∧ read (write t.segments) = .ok t) ∧
      render look ⟨segments⟩ = shown look segments ∧
      ∃ t, read (String.ofList (double source.toList)) = .ok t ∧ t.render look = source := by
  refine ⟨⟨isNormal_of_read, read_of_isNormal⟩, fun t given => ?_, render_eq_shown look segments,
    ⟨_, read_double source, ?_⟩⟩
  · have normal := isNormal_of_read given
    exact ⟨normal, read_of_isNormal normal⟩
  · rw [render_eq_shown, shown_flush_reverse]

namespace Sample

/-- Braces of all kinds around two fields. -/
def greeting : List Segment :=
  [.text "\x7b", .field "first\x7bname", .text "\x7d is \x7b\x7b", .field "age"]

/-- A source of the greeting that has fewer blanks than its spelling. -/
def greetingSource : String :=
  "\x7b\x7b\x7bfirst\x7bname\x7d\x7d\x7d is \x7b\x7b\x7b\x7b\x7bage\x7d"

end Sample

open Template.Sample in
/-- Three braces in a row are a doubled one and one that opens or closes a field. -/
theorem read_write_greeting :
    read greetingSource = .ok ⟨greeting⟩ ∧ IsNormal greeting ∧
      read (write greeting) = .ok ⟨greeting⟩ := by
  have given : read greetingSource = .ok ⟨greeting⟩ := by decide +kernel
  have whole := read_write greetingSource greeting fun _ => .null
  have normal : IsNormal greeting := (whole.2.1 _ given).1
  exact ⟨given, normal, whole.1.mpr normal⟩

end Template

end LiveBinding
