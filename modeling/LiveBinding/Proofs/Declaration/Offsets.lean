/-
# LiveBinding.Proofs.Declaration.Offsets -- an offset says where something stands

Offsets count bytes, and only places between two characters can be meant.  A text that
can be cut into tokens is cut at such places, one after another (`Cut.ordered`,
`StandsAt.isBoundary`).

From the tokens offsets come into what is read.  What the grammar derives holds only names
and keys of the tokens it derives from, each with its offset (`Derives.isDrawnFrom`);
a repeated key draws its offset from one pair and its expression from another.  A fault
stands at a token, at a character that begins none, or at the end of the text.  So every
offset, of a name, of a key or of a fault, can be looked up in the text
(`offsets_faithful`).
-/
import LiveBinding.Proofs.Declaration.Cut
import LiveBinding.Proofs.Declaration.Viable

namespace LiveBinding

set_option autoImplicit false

namespace Declaration

variable {text : String} {before after : List Char} {token : Token} {offset : Nat}
  {ts us : List Placed} {placed : Placed} {e : Misplaced}

/-! ## Places in a text -/

/-- Between two characters of the text, or at one of its ends, lies the byte offset. -/
def IsBoundary (text : String) (offset : Nat) : Prop :=
  (⟨offset⟩ : String.Pos.Raw).IsValid text

theorem utf8ByteSize_ofList (cs : List Char) : (String.ofList cs).utf8ByteSize = width cs := by
  induction cs with
  | nil => rfl
  | cons c rest ih =>
      rw [String.ofList_cons, String.utf8ByteSize_append, String.utf8ByteSize_singleton, ih,
        width_cons]

theorem utf8ByteSize_eq_width (text : String) : text.utf8ByteSize = width text.toList := by
  rw [← utf8ByteSize_ofList, String.ofList_toList]

theorem isBoundary_of_append (whole : text.toList = before ++ after) :
    IsBoundary text (width before) := by
  refine String.Pos.Raw.isValid_iff_exists_append.mpr
    ⟨String.ofList before, String.ofList after, ?_, ?_⟩
  · rw [← String.ofList_append, ← whole, String.ofList_toList]
  · rw [String.rawEndPos, utf8ByteSize_ofList]

theorem isBoundary_end (text : String) : IsBoundary text text.utf8ByteSize :=
  String.Pos.Raw.isValid_rawEndPos

theorem StandsAt.isBoundary (stands : StandsAt text.toList placed) :
    IsBoundary text placed.offset := by
  obtain ⟨before, source, after, whole, begins, -, -⟩ := stands
  exact begins ▸ isBoundary_of_append whole

/-- The name stands at the byte offset, and no longer name does. -/
def NameStands (text name : String) (offset : Nat) : Prop :=
  ∃ before after, text = before ++ name ++ after ∧ before.utf8ByteSize = offset ∧
    ∀ c ∈ after.toList.head?, isNamePart c = false

theorem StandsAt.name {name : String} (stands : StandsAt text.toList ⟨.name name, offset⟩) :
    NameStands text name offset := by
  obtain ⟨before, source, after, whole, begins, spells, ends⟩ := stands
  have spelled : String.ofList source = name := by
    cases spells with
    | single is =>
        unfold single? at is
        split at is <;> cases is
    | name => rfl
  refine ⟨String.ofList before, String.ofList after, ?_, ?_, ?_⟩
  · rw [← spelled, ← String.ofList_append, ← String.ofList_append, List.append_assoc, ← whole,
      String.ofList_toList]
  · rw [utf8ByteSize_ofList, begins]
  · rwa [String.toList_ofList]

/-- At the byte offset stands the key, as a name or between the quotes that write it. -/
def KeyStands (text key : String) (offset : Nat) : Prop :=
  ∃ token, IsKey token key ∧ StandsAt text.toList ⟨token, offset⟩

/-! ## What is read is drawn from the tokens -/

/-- Key and names of the pair are tokens, each where it says. -/
structure PairDrawnFrom (ts : List Placed) (pair : Pair) : Prop where
  key : ∃ token, IsKey token pair.key ∧ ⟨token, pair.offset⟩ ∈ ts
  names : ∀ name ∈ pair.expr.names, ⟨.name name.1, name.2⟩ ∈ ts

theorem PairDrawnFrom.mono {pair : Pair} (drawn : PairDrawnFrom ts pair) (sub : ts ⊆ us) :
    PairDrawnFrom us pair := by
  obtain ⟨token, isKey, among⟩ := drawn.key
  exact ⟨⟨token, isKey, sub among⟩, fun name named => sub (drawn.names name named)⟩

/-- All keys and names of the form are tokens, each where it says. -/
def Form.IsDrawnFrom (ts : List Placed) : Form → Prop
  | .expression x => ∀ word ∈ x.names, ⟨.name word.1, word.2⟩ ∈ ts
  | .pair last => PairDrawnFrom ts last
  | .series pairs => ∀ p ∈ pairs, PairDrawnFrom ts p
  | .list pairs => ∀ p ∈ pairs, PairDrawnFrom ts p

/-- A pair that is kept has its key from one pair that was written, and its expression from
another. -/
theorem drawnFrom_of_mem_settled {written : List Pair} {pair : Pair}
    (each : ∀ other ∈ written, PairDrawnFrom ts other) (among : pair ∈ Pair.settled written) :
    PairDrawnFrom ts pair := by
  obtain ⟨first, listed, sameKey, sameOffset⟩ := Pair.key_of_mem_settled among
  obtain ⟨last, listedLast, sameExpr⟩ := Pair.expr_of_mem_settled among
  exact ⟨sameKey ▸ sameOffset ▸ (each first listed).key, sameExpr ▸ (each last listedLast).names⟩

theorem Derives.isDrawnFrom {form : Form} (derives : Derives ts form) : form.IsDrawnFrom ts := by
  induction derives with
  | keyword | text | number => exact nofun
  | @name word offset _ =>
      intro name named
      rw [Expr.names, List.mem_singleton] at named
      exact named ▸ List.mem_singleton_self _
  | negation _ _ ih => exact fun name named => List.mem_cons_of_mem _ (ih name named)
  | parentheses _ _ _ ih =>
      exact fun name named => List.mem_cons_of_mem _ (List.mem_append_left _ (ih name named))
  | object _ _ _ ih =>
      intro name named
      obtain ⟨entry, among, named⟩ := Expr.mem_entryNames.mp named
      obtain ⟨pair, kept, rfl⟩ := List.mem_map.mp among
      have drawn := drawnFrom_of_mem_settled ih kept
      exact List.mem_cons_of_mem _ (List.mem_append_left _ (drawn.names name named))
  | @pair token key ts x offset after isKey _ ih =>
      exact ⟨⟨token, isKey, List.mem_cons_self⟩,
        fun name named => List.mem_cons_of_mem _ (List.mem_cons_of_mem _ (ih name named))⟩
  | one _ ih => exact fun pair among => List.mem_singleton.mp among ▸ ih
  | more _ _ _ ihSeries ihPair =>
      intro pair among
      rcases List.mem_append.mp among with before | last
      · exact (ihSeries pair before).mono (List.subset_append_left _ _)
      · rw [List.mem_singleton.mp last]
        exact ihPair.mono (List.subset_append_of_subset_right _ (List.subset_cons_self _ _))
  | empty => exact nofun
  | full _ ih => exact ih
  | trailing _ _ ih => exact fun pair among => (ih pair among).mono (List.subset_append_left _ _)

/-! ## Where a fault stands -/

def Fault.isAtEnd : Fault → Bool
  | .expectedKey found | .expectedColon found | .expectedExpression found
  | .expectedCommaOrBrace found | .expectedCommaOrEnd found | .expectedParen found => found.isNone
  | _ => false

theorem isAtEnd_of_step {s : State} (refused : step s placed = .error e) :
    e.fault.isAtEnd = false := by
  unfold step at refused
  grind [Fault.isAtEnd]

theorem isAtEnd_of_enter {c : Char} (refused : enter offset c = .error e) :
    e.fault.isAtEnd = false := by
  unfold enter at refused
  grind [Fault.isAtEnd]

theorem isAtEnd_of_numberToken {start : Nat} {read : List Char}
    (refused : numberToken start read = .error e) : e.fault.isAtEnd = false := by
  unfold numberToken at refused
  grind [Fault.isAtEnd]

theorem isAtEnd_of_advance {mode : Mode} {c : Char} (refused : advance mode offset c = .error e) :
    e.fault.isAtEnd = false := by
  unfold advance at refused
  grind [isAtEnd_of_enter, isAtEnd_of_numberToken, exists_of_bind_error]

theorem isAtEnd_of_conclude {mode : Mode} (refused : conclude mode = .error e) :
    e.fault.isAtEnd = false := by
  unfold conclude at refused
  grind [isAtEnd_of_numberToken, exists_of_bind_error, Fault.isAtEnd]

/-- A text that cannot be cut has something wrong in it. -/
theorem isAtEnd_of_scan {mode : Mode} {rest : List Char} (refused : scan mode offset rest = .error e) :
    e.fault.isAtEnd = false := by
  induction rest generalizing mode offset with
  | nil => exact isAtEnd_of_conclude refused
  | cons c rest ih =>
      rcases exists_of_bind_error refused with refused | ⟨_, _, refused⟩
      · exact isAtEnd_of_advance refused
      rcases exists_of_bind_error refused with refused | ⟨_, _, refused⟩
      · exact ih refused
      · cases refused

/-- Tokens that are refused are so at one of them, or at their end. -/
theorem offset_of_run {length : Nat} {s : State} (refused : run length s ts = .error e) :
    ((∃ wrong ∈ ts, e.offset = wrong.offset) ∧ e.fault.isAtEnd = false) ∨ e.offset = length := by
  obtain ⟨before, t, -, ⟨wrong, after, rfl, stops⟩ | ⟨-, stops⟩⟩ := run_refused refused
  · have among : wrong ∈ before ++ wrong :: after :=
      List.mem_append_right _ List.mem_cons_self
    exact .inl ⟨⟨wrong, among, offset_of_step stops⟩, isAtEnd_of_step stops⟩
  · exact .inr (offset_of_finish stops)

/-! ## Every offset can be looked up -/

/-- Wherever a text is cut, and wherever something of it is read or refused, the offset is a
place in the text, and what should stand there does: tokens stand one after another, with
blanks between them and the end of the text after them; every name that is read is one and
ends where it is said to; every operator stands where its first key is; and a fault stands at
the end of the text if it is that the text ends. -/
theorem offsets_faithful (selector text : String) :
    (∀ ts, tokens text = .ok ts →
      (ts.map (·.offset) ++ [text.utf8ByteSize]).Pairwise (· < ·) ∧
        (∀ placed ∈ ts, IsBoundary text placed.offset) ∧ Cut 0 text.toList ts) ∧
    (∀ d, read selector text = .ok d →
      (∀ name ∈ d.names, NameStands text name.1 name.2) ∧
        ∀ pair ∈ d.pairs, KeyStands text pair.key pair.offset) ∧
    ∀ error, read selector text = .error error →
      IsBoundary text error.offset ∧
        (error.fault.isAtEnd = true → error.offset = text.utf8ByteSize) := by
  have stands : ∀ ts, tokens text = .ok ts → ∀ placed ∈ ts, StandsAt text.toList placed :=
    fun ts cut placed among => (cut_of_tokens cut).stands [] rfl rfl among
  refine ⟨fun ts cut => ⟨?_, fun placed among => (stands ts cut placed among).isBoundary,
    cut_of_tokens cut⟩, fun d result => ?_, fun error refused => ?_⟩
  · have ordered := (cut_of_tokens cut).ordered.1
    rwa [Nat.zero_add, ← utf8ByteSize_eq_width] at ordered
  · obtain ⟨ts, written, cut, derives, rfl⟩ := (read_iff_derives selector text d).1.mp result
    have drawn : ∀ pair ∈ Pair.settled written, PairDrawnFrom ts pair := fun pair kept =>
      drawnFrom_of_mem_settled derives.isDrawnFrom kept
    refine ⟨fun name named => ?_, fun pair kept => ?_⟩
    · obtain ⟨pair, kept, named⟩ := List.mem_flatMap.mp named
      exact (stands ts cut _ ((drawn pair kept).names name named)).name
    · obtain ⟨token, isKey, among⟩ := (drawn pair kept).key
      exact ⟨token, isKey, stands ts cut _ among⟩
  · rw [read, readPairs] at refused
    rcases cut : tokens text with fault | ts
    · rw [cut] at refused
      cases refused
      obtain ⟨before, c, after, whole, at_⟩ := offset_of_tokens cut
      refine ⟨?_, fun ends => ?_⟩
      · rw [at_]
        exact isBoundary_of_append whole
      · rw [isAtEnd_of_scan cut] at ends
        cases ends
    · rw [cut] at refused
      rcases ended : run text.utf8ByteSize (.key [] []) ts with fault | pairs
      · simp only [bind, Except.bind, ended, Except.error.injEq] at refused
        subst refused
        rcases offset_of_run ended with ⟨⟨wrong, among, at_⟩, inside⟩ | at_
        · refine ⟨?_, fun ends => ?_⟩
          · rw [at_]
            exact (stands ts cut wrong among).isBoundary
          · rw [inside] at ends
            cases ends
        · rw [at_]
          exact ⟨isBoundary_end text, fun _ => rfl⟩
      · simp only [bind, Except.bind, ended, reduceCtorEq] at refused

end Declaration

open Declaration

namespace Sample

/-- A key of two bytes between its quotes, and the same key once more. -/
def repeated : String := "'é': a, b: !a, \"é\": c"

/-- A text that ends before the expression. -/
def unfinished : String := "'é': "

end Sample

open Sample in
/-- The repeated key stands where it is first, and its expression where it is last. -/
theorem Declaration.offsets_faithful_repeated :
    read "p" repeated = .ok ⟨"p", repeated,
        [⟨"é", 0, .name "c" 22⟩, ⟨"b", 9, .negation (.name "a" 13)⟩]⟩ ∧
      (NameStands repeated "c" 22 ∧ NameStands repeated "a" 13) ∧
      (KeyStands repeated "é" 0 ∧ KeyStands repeated "b" 9) ∧
      read "p" unfinished = .error ⟨"p", 6, .expectedExpression none⟩ ∧
      IsBoundary unfinished 6 ∧ 6 = unfinished.utf8ByteSize := by
  have result : read "p" repeated = .ok ⟨"p", repeated,
      [⟨"é", 0, .name "c" 22⟩, ⟨"b", 9, .negation (.name "a" 13)⟩]⟩ := by rfl
  have refused : read "p" unfinished = .error ⟨"p", 6, .expectedExpression none⟩ := by rfl
  obtain ⟨names, keys⟩ := (offsets_faithful "p" repeated).2.1 _ result
  obtain ⟨within, ends⟩ := (offsets_faithful "p" unfinished).2.2 _ refused
  exact ⟨result, ⟨names ("c", 22) (by decide), names ("a", 13) (by decide)⟩,
    ⟨keys _ List.mem_cons_self, keys _ (List.mem_cons_of_mem _ List.mem_cons_self)⟩,
    refused, within, ends rfl⟩

end LiveBinding
