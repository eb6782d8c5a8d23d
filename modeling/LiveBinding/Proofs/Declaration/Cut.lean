/-
# LiveBinding.Proofs.Declaration.Cut -- how a text is cut into tokens

A text is cut into the sources of its tokens, in order, with nothing but blanks between
them, and each source is as long as it can be (`Cut`).  The characters that may be the
source of a token are said of each kind by itself (`Spells`): what stands between quotes is
read pairwise after a backslash, a number by what may follow in it, a name by what names are
made of.

Reading in one of the modes is finishing the token that is being read and cutting the rest
(`Mode.Reads`), which holds by induction on the characters that are left (`reads_of_scan`).
A text that cannot be cut is refused where a token begins or at a character that begins
none (`offset_of_scan`).
-/
import Mathlib.Data.List.Basic
import LiveBinding.Declaration.Token

namespace LiveBinding.Declaration

set_option autoImplicit false

variable {c quote : Char} {read rest source value : List Char} {token : Token} {ts : List Placed}
  {offset start : Nat} {mode : Mode} {e : Misplaced}

/-! ## The sources of tokens -/

/-- The bytes that characters take. -/
def width : List Char → Nat
  | [] => 0
  | c :: rest => c.utf8Size + width rest

@[simp] theorem width_nil : width [] = 0 := rfl

@[simp] theorem width_cons (c : Char) (cs : List Char) : width (c :: cs) = c.utf8Size + width cs :=
  rfl

@[simp] theorem width_append (cs ds : List Char) : width (cs ++ ds) = width cs + width ds := by
  induction cs with
  | nil => rw [List.nil_append, width_nil, Nat.zero_add]
  | cons c rest ih => rw [List.cons_append, width_cons, ih, width_cons, Nat.add_assoc]

theorem width_pos (nonempty : source ≠ []) : 0 < width source := by
  obtain ⟨c, rest, rfl⟩ := List.exists_cons_of_ne_nil nonempty
  have first := c.utf8Size_pos
  rw [width_cons]
  omega

/-- What stands between two quotes, and the characters that it writes. -/
inductive Quotes (quote : Char) : List Char → List Char → Prop
  | nothing : Quotes quote [] []
  | plain {c : Char} {source value : List Char} :
      c ≠ '\\' → c ≠ quote → Quotes quote source value → Quotes quote (c :: source) (c :: value)
  | escaped {source value : List Char} (c : Char) :
      Quotes quote source value → Quotes quote ('\\' :: c :: source) (unescape c :: value)

/-- The characters go on with a number of which `read` was read, latest first. -/
def Continues : List Char → List Char → Prop
  | _, [] => True
  | read, c :: rest => isNumberPart read c = true ∧ Continues (c :: read) rest

/-- The characters are the source of the token. -/
inductive Spells : List Char → Token → Prop
  | single {c : Char} {token : Token} : single? c = some token → Spells [c] token
  | text {quote : Char} {source value : List Char} :
      isQuote quote = true → Quotes quote source value →
      Spells (quote :: (source ++ [quote])) (.text (String.ofList value))
  | number {c : Char} {rest : List Char} {n : Number} :
      isNumberStart c = true → Continues [c] rest → Number.ofLiteral? (c :: rest) = some n →
      Spells (c :: rest) (.number n)
  | name {c : Char} {rest : List Char} :
      isNameStart c = true → (∀ part ∈ rest, isNamePart part = true) →
      Spells (c :: rest) (.name (String.ofList (c :: rest)))

/-- The token does not go on with what follows its source. -/
def Token.EndsBefore (source : List Char) (next : Option Char) : Token → Prop
  | .name _ => ∀ c ∈ next, isNamePart c = false
  | .number _ => ∀ c ∈ next, isNumberPart source.reverse c = false
  | _ => True

/-- The characters from `offset` on are the sources of the tokens, in order, and blanks
between them. -/
inductive Cut : Nat → List Char → List Placed → Prop
  | done (offset : Nat) : Cut offset [] []
  | blank {offset : Nat} {c : Char} {rest : List Char} {ts : List Placed} :
      Text.isBlank c = true → Cut (offset + c.utf8Size) rest ts → Cut offset (c :: rest) ts
  | token {offset : Nat} {source rest : List Char} {token : Token} {ts : List Placed} :
      Spells source token → token.EndsBefore source rest.head? →
      Cut (offset + width source) rest ts → Cut offset (source ++ rest) (⟨token, offset⟩ :: ts)

theorem Spells.ne_nil (spells : Spells source token) : source ≠ [] := by
  cases spells <;> exact List.cons_ne_nil _ _

/-- The token stands in the text, at so many bytes from its beginning. -/
def StandsAt (text : List Char) (placed : Placed) : Prop :=
  ∃ before source after, text = before ++ (source ++ after) ∧ width before = placed.offset ∧
    Spells source placed.token ∧ placed.token.EndsBefore source after.head?

namespace Cut

/-- Every token stands in the text. -/
theorem stands {text : List Char} {placed : Placed} (cut : Cut offset rest ts)
    (before : List Char) (whole : text = before ++ rest) (begins : width before = offset) (among : placed ∈ ts) :
    StandsAt text placed := by
  induction cut generalizing before with
  | done => cases among
  | @blank offset c rest ts _ _ ih =>
      refine ih (before ++ [c]) (by simpa using whole) ?_ among
      rw [width_append, begins, width_cons, width_nil, Nat.add_zero]
  | @token offset source rest token ts spells ends _ ih =>
      rcases List.mem_cons.mp among with rfl | later
      · exact ⟨before, source, rest, whole, begins, spells, ends⟩
      · refine ih (before ++ source) (by simpa using whole) ?_ later
        rw [width_append, begins]

/-- Tokens stand one after another, the first not before the place that the text is cut from,
and the last before its end. -/
theorem ordered (cut : Cut offset rest ts) :
    (ts.map (·.offset) ++ [offset + width rest]).Pairwise (· < ·) ∧
      ∀ place ∈ ts.map (·.offset) ++ [offset + width rest], offset ≤ place := by
  induction cut with
  | done offset => simp
  | @blank offset c rest ts _ _ ih =>
      rw [width_cons, ← Nat.add_assoc]
      refine ⟨ih.1, fun place among => ?_⟩
      have later := ih.2 place among
      omega
  | @token offset source rest token ts spells _ _ ih =>
      have longer := width_pos spells.ne_nil
      rw [width_append, ← Nat.add_assoc]
      refine ⟨List.pairwise_cons.mpr ⟨fun place among => ?_, ih.1⟩, fun place among => ?_⟩
      · have later := ih.2 place among
        show offset < place
        omega
      · rcases List.mem_cons.mp among with rfl | among
        · exact Nat.le_refl _
        · have later := ih.2 place among
          omega

end Cut

/-! ## Reading in a mode -/

/-- What is left of the text finishes the token that is being read, and is then cut into the
rest of the tokens. -/
def Mode.Reads (offset : Nat) (rest : List Char) (ts : List Placed) : Mode → Prop
  | .between => Cut offset rest ts
  | .quoted quote start read escaped =>
      ∃ source value after more, rest = source ++ quote :: after ∧
        Quotes quote (if escaped then '\\' :: source else source) value ∧
        ts = ⟨.text (String.ofList (read.reverse ++ value)), start⟩ :: more ∧
        Cut (offset + width source + quote.utf8Size) after more
  | .number start read =>
      ∃ source n after more, rest = source ++ after ∧ Continues read source ∧
        Number.ofLiteral? (read.reverse ++ source) = some n ∧
        (∀ c ∈ after.head?, isNumberPart (source.reverse ++ read) c = false) ∧
        ts = ⟨.number n, start⟩ :: more ∧ Cut (offset + width source) after more
  | .name start read =>
      ∃ source after more, rest = source ++ after ∧ (∀ part ∈ source, isNamePart part = true) ∧
        (∀ c ∈ after.head?, isNamePart c = false) ∧
        ts = ⟨.name (String.ofList (read.reverse ++ source)), start⟩ :: more ∧
        Cut (offset + width source) after more

/-- A token that a character does not go on with is finished, and from that character on the
text is read between tokens. -/
theorem scan_stops {finished : Except Misplaced Placed}
    (stops : advance mode offset c = (do
      let token ← finished
      let next ← enter offset c
      .ok (token :: next.1.toList, next.2))) :
    scan mode offset (c :: rest) = (do
      let token ← finished
      let more ← scan .between offset (c :: rest)
      .ok (token :: more)) := by
  rw [scan, scan, stops, advance]
  rcases finished with fault | token
  · rfl
  rcases enter offset c with fault | ⟨single, next⟩
  · rfl
  simp only [bind, Except.bind]
  rcases scan next (offset + c.utf8Size) rest with fault | more <;> rfl

theorem advance_number_stops (stops : isNumberPart read c = false) :
    advance (.number start read) offset c = (do
      let token ← numberToken start read
      let next ← enter offset c
      .ok (token :: next.1.toList, next.2)) := by
  rw [advance, stops]
  rfl

theorem advance_name_stops (stops : isNamePart c = false) :
    advance (.name start read) offset c = (do
      let token ← .ok ⟨.name (gathered read), start⟩
      let next ← enter offset c
      .ok (token :: next.1.toList, next.2)) := by
  rw [advance, stops]
  rfl

/-- What a character between tokens may be: a token, a blank, or the first of a token. -/
inductive Enters (offset : Nat) (c : Char) : Option Placed → Mode → Prop
  | single {token : Token} : single? c = some token → Enters offset c (some ⟨token, offset⟩) .between
  | blank : Text.isBlank c = true → Enters offset c none .between
  | quote : isQuote c = true → Enters offset c none (.quoted c offset [] false)
  | number : isNumberStart c = true → Enters offset c none (.number offset [c])
  | name : isNameStart c = true → Enters offset c none (.name offset [c])

theorem enters_of_enter {single : Option Placed} {next : Mode}
    (entered : enter offset c = .ok (single, next)) : Enters offset c single next := by
  rw [enter] at entered
  split at entered
  · rename_i token is
    cases entered
    exact .single is
  split at entered
  · rename_i is
    cases entered
    exact .blank is
  split at entered
  · rename_i is
    cases entered
    exact .quote is
  split at entered
  · rename_i is
    cases entered
    exact .number is
  split at entered
  · rename_i is
    cases entered
    exact .name is
  · cases entered

theorem endsBefore_of_single {next : Option Char} (single : single? c = some token) :
    token.EndsBefore source next := by
  unfold single? at single
  split at single <;> cases single <;> exact trivial

/-- In every mode the characters are read as `Mode.Reads` says, if they are read at all. -/
def ReadsOn (offset : Nat) (rest : List Char) : Prop :=
  ∀ mode ts, scan mode offset rest = .ok ts → mode.Reads offset rest ts

theorem exists_of_bind_ok {α β : Type} {first : Except Misplaced α} {next : α → Except Misplaced β}
    {b : β} (ended : (first >>= next) = .ok b) : ∃ a, first = .ok a ∧ next a = .ok b := by
  cases first with
  | error fault => cases ended
  | ok a => exact ⟨a, rfl, ended⟩

/-- Between tokens the rest of the text is cut, if that is so after the next character. -/
theorem cut_of_scan_between
    (readsOn : ReadsOn (offset + c.utf8Size) rest)
    (scanned : scan .between offset (c :: rest) = .ok ts) : Cut offset (c :: rest) ts := by
  rw [scan] at scanned
  obtain ⟨_, stepped, scanned⟩ := exists_of_bind_ok scanned
  obtain ⟨⟨single, next⟩, entered, stepped⟩ := exists_of_bind_ok stepped
  cases stepped
  obtain ⟨more, further, scanned⟩ := exists_of_bind_ok scanned
  cases scanned
  have reads := readsOn next more further
  cases enters_of_enter entered with
  | single is =>
      show Cut offset ([c] ++ rest) _
      exact .token (.single is) (endsBefore_of_single is) reads
  | blank is => exact .blank is reads
  | quote is =>
      obtain ⟨source, value, after, later, rfl, quotes, rfl, cut⟩ := reads
      have whole : c :: (source ++ c :: after) = c :: (source ++ [c]) ++ after := by simp
      rw [whole]
      refine .token (.text is quotes) trivial ?_
      simpa [Nat.add_assoc] using cut
  | number is =>
      obtain ⟨source, n, after, later, rfl, continues, literal, ends, rfl, cut⟩ := reads
      show Cut offset (c :: source ++ after) _
      refine .token (.number is continues literal) ?_ ?_
      · simpa [Token.EndsBefore] using ends
      · simpa [Nat.add_assoc] using cut
  | name is =>
      obtain ⟨source, after, later, rfl, parts, ends, rfl, cut⟩ := reads
      show Cut offset (c :: source ++ after) _
      refine .token (.name is parts) ends ?_
      simpa [Nat.add_assoc] using cut

/-- Between quotes a backslash takes the next character with it, and only the quote that
opened the text ends it. -/
theorem reads_of_scan_quoted {escaped : Bool}
    (readsOn : ReadsOn (offset + c.utf8Size) rest)
    (scanned : scan (.quoted quote start read escaped) offset (c :: rest) = .ok ts) :
    (Mode.quoted quote start read escaped).Reads offset (c :: rest) ts := by
  rw [scan] at scanned
  obtain ⟨⟨first, next⟩, stepped, scanned⟩ := exists_of_bind_ok scanned
  obtain ⟨more, further, scanned⟩ := exists_of_bind_ok scanned
  cases scanned
  have reads := readsOn next more further
  cases escaped with
  | true =>
      cases stepped
      obtain ⟨source, value, after, later, rfl, quotes, rfl, cut⟩ := reads
      refine ⟨c :: source, unescape c :: value, after, later, rfl, .escaped c quotes, ?_, ?_⟩
      · simp
      · simpa [Nat.add_assoc] using cut
  | false =>
      rw [advance] at stepped
      split at stepped
      · rename_i backslash
        cases stepped
        subst backslash
        obtain ⟨source, value, after, later, rfl, quotes, rfl, cut⟩ := reads
        refine ⟨'\\' :: source, value, after, later, rfl, quotes, rfl, ?_⟩
        simpa [Nat.add_assoc] using cut
      split at stepped
      · rename_i closes
        cases stepped
        subst closes
        exact ⟨[], [], rest, more, rfl, .nothing, by simp [gathered], reads⟩
      · rename_i plain other
        cases stepped
        obtain ⟨source, value, after, later, rfl, quotes, rfl, cut⟩ := reads
        refine ⟨c :: source, c :: value, after, later, rfl, .plain plain other quotes, ?_, ?_⟩
        · simp
        · simpa [Nat.add_assoc] using cut

theorem numberToken_ok {placed : Placed} (ended : numberToken start read = .ok placed) :
    ∃ n, Number.ofLiteral? read.reverse = some n ∧ placed = ⟨.number n, start⟩ := by
  rw [numberToken] at ended
  split at ended
  · rename_i n literal
    cases ended
    exact ⟨n, literal, rfl⟩
  · cases ended

/-- A number goes on as long as it can. -/
theorem reads_of_scan_number (readsOn : ReadsOn (offset + c.utf8Size) rest)
    (scanned : scan (.number start read) offset (c :: rest) = .ok ts) :
    (Mode.number start read).Reads offset (c :: rest) ts := by
  cases goes : isNumberPart read c with
  | true =>
      rw [scan, advance, if_pos goes] at scanned
      obtain ⟨_, stepped, scanned⟩ := exists_of_bind_ok scanned
      cases stepped
      obtain ⟨more, further, scanned⟩ := exists_of_bind_ok scanned
      cases scanned
      obtain ⟨source, n, after, later, rfl, continues, literal, ends, rfl, cut⟩ :=
        readsOn _ more further
      refine ⟨c :: source, n, after, later, rfl, ⟨goes, continues⟩, ?_, ?_, rfl, ?_⟩
      · simpa using literal
      · simpa using ends
      · simpa [Nat.add_assoc] using cut
  | false =>
      rw [scan_stops (advance_number_stops goes)] at scanned
      obtain ⟨token, finished, scanned⟩ := exists_of_bind_ok scanned
      obtain ⟨more, further, scanned⟩ := exists_of_bind_ok scanned
      cases scanned
      obtain ⟨n, literal, rfl⟩ := numberToken_ok finished
      refine ⟨[], n, c :: rest, more, rfl, trivial, by simpa using literal, ?_, rfl,
        cut_of_scan_between readsOn further⟩
      rintro _ ⟨⟩
      exact goes

/-- So does a name. -/
theorem reads_of_scan_name (readsOn : ReadsOn (offset + c.utf8Size) rest)
    (scanned : scan (.name start read) offset (c :: rest) = .ok ts) :
    (Mode.name start read).Reads offset (c :: rest) ts := by
  cases goes : isNamePart c with
  | true =>
      rw [scan, advance, if_pos goes] at scanned
      obtain ⟨_, stepped, scanned⟩ := exists_of_bind_ok scanned
      cases stepped
      obtain ⟨more, further, scanned⟩ := exists_of_bind_ok scanned
      cases scanned
      obtain ⟨source, after, later, rfl, parts, ends, rfl, cut⟩ := readsOn _ more further
      refine ⟨c :: source, after, later, rfl, ?_, ends, by simp, ?_⟩
      · exact List.forall_mem_cons.mpr ⟨goes, parts⟩
      · simpa [Nat.add_assoc] using cut
  | false =>
      rw [scan_stops (advance_name_stops goes)] at scanned
      obtain ⟨_, finished, scanned⟩ := exists_of_bind_ok scanned
      cases finished
      obtain ⟨more, further, scanned⟩ := exists_of_bind_ok scanned
      cases scanned
      refine ⟨[], c :: rest, more, rfl, nofun, ?_, by simp [gathered],
        cut_of_scan_between readsOn further⟩
      rintro _ ⟨⟩
      exact goes

theorem reads_of_conclude (concluded : conclude mode = .ok ts) : mode.Reads offset [] ts := by
  cases mode with
  | between =>
      cases concluded
      exact .done offset
  | quoted => cases concluded
  | number start read =>
      obtain ⟨token, finished, concluded⟩ := exists_of_bind_ok concluded
      cases concluded
      obtain ⟨n, literal, rfl⟩ := numberToken_ok finished
      exact ⟨[], n, [], [], rfl, trivial, by simpa using literal, nofun, rfl, .done _⟩
  | name start read =>
      cases concluded
      exact ⟨[], [], [], rfl, nofun, nofun, by simp [gathered], .done _⟩

/-- A text that is read in some mode finishes the token of that mode and is cut then. -/
theorem reads_of_scan (offset : Nat) (rest : List Char) : ReadsOn offset rest := by
  induction rest generalizing offset with
  | nil => exact fun _ _ concluded => reads_of_conclude concluded
  | cons c rest ih =>
      have readsOn := ih (offset + c.utf8Size)
      intro mode ts scanned
      cases mode with
      | between => exact cut_of_scan_between readsOn scanned
      | quoted => exact reads_of_scan_quoted readsOn scanned
      | number => exact reads_of_scan_number readsOn scanned
      | name => exact reads_of_scan_name readsOn scanned

/-- The tokens of a text are what it is cut into. -/
theorem cut_of_tokens {text : String} (cut : tokens text = .ok ts) : Cut 0 text.toList ts :=
  reads_of_scan 0 text.toList .between ts cut

/-! ## Where a text cannot be cut -/

/-- Where the token begins that is being read. -/
def Mode.start? : Mode → Option Nat
  | .between => none
  | .quoted _ start _ _ => some start
  | .number start _ => some start
  | .name start _ => some start

theorem offset_of_enter (refused : enter offset c = .error e) : e.offset = offset := by
  unfold enter at refused
  grind

theorem offset_of_numberToken (refused : numberToken start read = .error e) :
    e.offset = start := by
  unfold numberToken at refused
  grind

theorem start_of_enter {single : Option Placed} {next : Mode}
    (entered : enter offset c = .ok (single, next)) (begins : next.start? = some start) :
    start = offset := by
  cases enters_of_enter entered <;> cases begins <;> rfl

theorem exists_of_bind_error {α β : Type} {first : Except Misplaced α} {next : α → Except Misplaced β}
    (ended : (first >>= next) = .error e) :
    first = .error e ∨ ∃ a, first = .ok a ∧ next a = .error e := by
  cases first with
  | error fault =>
      cases ended
      exact .inl rfl
  | ok a => exact .inr ⟨a, rfl, ended⟩

/-- A character that is refused is so itself, or the number is that it ends. -/
theorem offset_of_advance (refused : advance mode offset c = .error e) :
    e.offset = offset ∨ mode.start? = some e.offset := by
  cases mode with
  | between =>
      rcases exists_of_bind_error refused with refused | ⟨_, _, refused⟩
      · exact .inl (offset_of_enter refused)
      · cases refused
  | quoted quote start read escaped =>
      unfold advance at refused
      grind
  | number start read =>
      rw [advance] at refused
      split at refused
      · cases refused
      rcases exists_of_bind_error refused with refused | ⟨_, _, refused⟩
      · exact .inr (congrArg some (offset_of_numberToken refused).symm)
      rcases exists_of_bind_error refused with refused | ⟨_, _, refused⟩
      · exact .inl (offset_of_enter refused)
      · cases refused
  | name start read =>
      rw [advance] at refused
      split at refused
      · cases refused
      rcases exists_of_bind_error refused with refused | ⟨_, _, refused⟩
      · exact .inl (offset_of_enter refused)
      · cases refused

/-- A token that is being read after a character was so before it, or begins with it. -/
theorem start_of_advance {step : List Placed × Mode} (stepped : advance mode offset c = .ok step)
    (begins : step.2.start? = some start) : start = offset ∨ mode.start? = some start := by
  cases mode with
  | between =>
      obtain ⟨next, entered, stepped⟩ := exists_of_bind_ok stepped
      cases stepped
      exact .inl (start_of_enter entered begins)
  | quoted quote start read escaped =>
      unfold advance at stepped
      grind [Mode.start?]
  | number start read =>
      rw [advance] at stepped
      split at stepped
      · cases stepped
        exact .inr begins
      obtain ⟨_, _, stepped⟩ := exists_of_bind_ok stepped
      obtain ⟨next, entered, stepped⟩ := exists_of_bind_ok stepped
      cases stepped
      exact .inl (start_of_enter entered begins)
  | name start read =>
      rw [advance] at stepped
      split at stepped
      · cases stepped
        exact .inr begins
      obtain ⟨next, entered, stepped⟩ := exists_of_bind_ok stepped
      cases stepped
      exact .inl (start_of_enter entered begins)

theorem offset_of_conclude (refused : conclude mode = .error e) :
    mode.start? = some e.offset := by
  cases mode with
  | between => cases refused
  | quoted => cases refused; rfl
  | number start read =>
      rcases exists_of_bind_error refused with refused | ⟨_, _, refused⟩
      · exact congrArg some (offset_of_numberToken refused).symm
      · cases refused
  | name => cases refused

/-- A text is refused where the token begins that was being read, or at one of its
characters. -/
theorem offset_of_scan (refused : scan mode offset rest = .error e) :
    mode.start? = some e.offset ∨
      ∃ before c after, rest = before ++ c :: after ∧ e.offset = offset + width before := by
  induction rest generalizing mode offset with
  | nil => exact .inl (offset_of_conclude refused)
  | cons c rest ih =>
      rcases exists_of_bind_error refused with refused | ⟨step, stepped, refused⟩
      · exact (offset_of_advance refused).symm.imp_right fun at_ => ⟨[], c, rest, rfl, at_⟩
      rcases exists_of_bind_error refused with refused | ⟨_, _, refused⟩
      · rcases ih refused with begins | ⟨before, d, after, rfl, at_⟩
        · exact (start_of_advance stepped begins).symm.imp_right fun at_ => ⟨[], c, rest, rfl, at_⟩
        · refine .inr ⟨c :: before, d, after, rfl, ?_⟩
          rw [at_, width_cons, Nat.add_assoc]
      · cases refused

/-- A text that cannot be cut is refused at one of its characters. -/
theorem offset_of_tokens {text : String} (refused : tokens text = .error e) :
    ∃ before c after, text.toList = before ++ c :: after ∧ e.offset = width before := by
  rcases offset_of_scan refused with begins | ⟨before, c, after, split, at_⟩
  · cases begins
  · exact ⟨before, c, after, split, by rw [at_, Nat.zero_add]⟩

end LiveBinding.Declaration
