/-
# LiveBinding.Proofs.Declaration.Literal -- every text can be written between quotes

After a backslash a quoted text takes any character in.  So every text can be written between
quotes of either kind, with a backslash before each backslash and before each quote of that
kind (`literal`).  A letter `n`, `t` or `r` of the text stands for itself, since no backslash
before it is left without one of its own (`quotes_escape`).

A text that is opened by a quote is closed by the first one that is not escaped, which can
be said without reading on: an even number of backslashes stands right before it (`Closes`).
With a quote that closes, what stands between the two is read, and the rest from there on
(`scan_quotes`); without one the text is refused where it was opened (`scan_unclosed`).

What stands before the opening quote does not matter, if only it can be cut into tokens
itself: a quote goes on with no name and no number (`scan_append_quote`).
-/
import LiveBinding.Proofs.Declaration.Offsets

namespace LiveBinding

set_option autoImplicit false

namespace Declaration

variable {c quote : Char} {taken rest source value before : List Char} {ts : List Placed}
  {offset start : Nat} {mode next : Mode} {e : Misplaced}

/-! ## Writing a text between quotes -/

/-- The characters, with a backslash before each backslash and each quote of the kind. -/
def escape (quote : Char) (cs : List Char) : List Char :=
  cs.flatMap fun c => if c = '\\' ∨ c = quote then ['\\', c] else [c]

/-- The source of a text token, between two quotes. -/
def literal (quote : Char) (s : String) : String :=
  String.ofList (quote :: (escape quote s.toList ++ [quote]))

theorem isQuote_iff : isQuote quote = true ↔ quote = '"' ∨ quote = '\'' := by
  simp [isQuote]

theorem ne_backslash_of_isQuote (isQ : isQuote quote = true) : quote ≠ '\\' := by
  rcases isQuote_iff.mp isQ with rfl | rfl <;> decide

theorem quotes_escape (isQ : isQuote quote = true) (cs : List Char) :
    Quotes quote (escape quote cs) cs := by
  induction cs with
  | nil => exact .nothing
  | cons c rest ih =>
      rw [escape, List.flatMap_cons]
      split
      next special =>
        have itself : unescape c = c := by
          rcases special with rfl | rfl
          · rfl
          · rcases isQuote_iff.mp isQ with rfl | rfl <;> rfl
        have written := Quotes.escaped c ih
        rwa [itself] at written
      next plain =>
        rw [not_or] at plain
        exact .plain plain.1 plain.2 ih

/-! ## The quote that closes -/

def backslashes (cs : List Char) : Nat :=
  (cs.reverse.takeWhile (· = '\\')).length

/-- A quote of the kind stands among the characters and is not escaped: the backslashes right
before it go in pairs. -/
def Closes (quote : Char) (cs : List Char) : Prop :=
  ∃ body after, cs = body ++ quote :: after ∧ backslashes body % 2 = 0

theorem backslashes_append (cs ds : List Char) :
    backslashes (cs ++ ds) =
      backslashes ds + if backslashes ds = ds.length then backslashes cs else 0 := by
  rw [backslashes, List.reverse_append, List.takeWhile_append, List.length_reverse]
  split
  next all =>
    have all : backslashes ds = ds.length := all
    rw [if_pos all, List.length_append, List.length_reverse, all]
    rfl
  next other =>
    have other : ¬ backslashes ds = ds.length := other
    rw [if_neg other]
    rfl

/-- Backslashes that go in pairs do not matter to those after them. -/
theorem backslashes_append_mod (paired : backslashes source % 2 = 0) (cs : List Char) :
    backslashes (source ++ cs) % 2 = backslashes cs % 2 := by
  rw [backslashes_append]
  split <;> omega

theorem backslashes_plain (plain : c ≠ '\\') : backslashes [c] % 2 = 0 := by
  simp [backslashes, plain]

theorem backslashes_pair (c : Char) : backslashes ['\\', c] % 2 = 0 := by
  by_cases backslash : c = '\\'
  · rw [backslash]
    rfl
  · simp [backslashes, backslash]

theorem Quotes.paired (quotes : Quotes quote source value) : backslashes source % 2 = 0 := by
  induction quotes with
  | nothing => rfl
  | plain notBackslash _ _ ih =>
      exact (backslashes_append_mod (backslashes_plain notBackslash) _).trans ih
  | escaped c _ ih => exact (backslashes_append_mod (backslashes_pair c) _).trans ih

/-- Before a quote that closes, what is read stops at the first one that does. -/
theorem exists_quotes : ∀ (body after : List Char), backslashes body % 2 = 0 →
    ∃ source value rest, body ++ quote :: after = source ++ quote :: rest ∧
      Quotes quote source value
  | [], after, _ => ⟨[], [], after, rfl, .nothing⟩
  | c :: body, after, paired => by
      by_cases closes : c = quote
      · subst closes
        exact ⟨[], [], body ++ c :: after, rfl, .nothing⟩
      by_cases backslash : c = '\\'
      · subst backslash
        cases body with
        | nil => cases paired
        | cons d body =>
            have paired' := (backslashes_append_mod (backslashes_pair d) body).symm.trans paired
            obtain ⟨source, value, rest, whole, quotes⟩ := exists_quotes body after paired'
            refine ⟨'\\' :: d :: source, _, rest, ?_, .escaped d quotes⟩
            rw [List.cons_append, List.cons_append, whole]
            rfl
      · have alone := backslashes_plain backslash
        have paired' := (backslashes_append_mod alone body).symm.trans paired
        obtain ⟨source, value, rest, whole, quotes⟩ := exists_quotes body after paired'
        refine ⟨c :: source, _, rest, ?_, .plain backslash closes quotes⟩
        rw [List.cons_append, whole]
        rfl

theorem closes_iff : Closes quote rest ↔
    ∃ source value after, rest = source ++ quote :: after ∧ Quotes quote source value := by
  constructor
  · rintro ⟨body, after, rfl, paired⟩
    exact exists_quotes body after paired
  · rintro ⟨source, value, after, rfl, quotes⟩
    exact ⟨source, after, rfl, quotes.paired⟩

/-! ## Reading what stands between quotes -/

/-- A character that ends no token only changes the mode. -/
theorem scan_of_advance (silent : advance mode offset c = .ok ([], next)) :
    scan mode offset (c :: rest) = scan next (offset + c.utf8Size) rest := by
  rw [scan, silent]
  show (scan next (offset + c.utf8Size) rest >>= fun more => .ok more) = _
  cases scan next (offset + c.utf8Size) rest <;> rfl

theorem advance_backslash :
    advance (.quoted quote start taken false) offset '\\' =
      .ok ([], .quoted quote start taken true) := by
  rw [advance, if_pos rfl]

theorem advance_plain (notBackslash : c ≠ '\\') (notQuote : c ≠ quote) :
    advance (.quoted quote start taken false) offset c =
      .ok ([], .quoted quote start (c :: taken) false) := by
  rw [advance, if_neg notBackslash, if_neg notQuote]

theorem scan_open (isQ : isQuote quote = true) :
    scan .between offset (quote :: rest) =
      scan (.quoted quote offset [] false) (offset + quote.utf8Size) rest := by
  refine scan_of_advance ?_
  rcases isQuote_iff.mp isQ with rfl | rfl <;> rfl

/-- What stands between the quotes is read, and then the rest from the second quote on. -/
theorem scan_quotes (isQ : isQuote quote = true) (quotes : Quotes quote source value) :
    scan (.quoted quote start taken false) offset (source ++ quote :: rest) =
      (scan .between (offset + width source + quote.utf8Size) rest).map
        (⟨.text (String.ofList (taken.reverse ++ value)), start⟩ :: ·) := by
  induction quotes generalizing taken offset with
  | nothing =>
      rw [List.nil_append, scan, advance, if_neg (ne_backslash_of_isQuote isQ), if_pos rfl,
        List.append_nil]
      rfl
  | plain notBackslash notQuote _ ih =>
      rw [List.cons_append, scan_of_advance (advance_plain notBackslash notQuote), ih]
      simp [Nat.add_assoc]
  | escaped c _ ih =>
      rw [List.cons_append, List.cons_append, scan_of_advance advance_backslash,
        scan_of_advance rfl, ih]
      simp [Nat.add_assoc]

/-- Without a quote that closes, the text is refused where it was opened. -/
theorem scan_unclosed {escaped : Bool}
    (unclosed : ¬ ∃ source value after, rest = source ++ quote :: after ∧
      Quotes quote (if escaped then '\\' :: source else source) value) :
    scan (.quoted quote start taken escaped) offset rest = .error ⟨.unterminatedText, start⟩ := by
  induction rest generalizing taken escaped offset with
  | nil => rfl
  | cons c rest ih =>
      cases escaped with
      | true =>
          rw [scan_of_advance rfl]
          refine ih fun ⟨source, value, after, whole, quotes⟩ => unclosed ?_
          exact ⟨c :: source, _, after, congrArg (c :: ·) whole, .escaped c quotes⟩
      | false =>
          by_cases backslash : c = '\\'
          · subst backslash
            rw [scan_of_advance advance_backslash]
            refine ih fun ⟨source, value, after, whole, quotes⟩ => unclosed ?_
            exact ⟨'\\' :: source, value, after, congrArg ('\\' :: ·) whole, quotes⟩
          by_cases closes : c = quote
          · subst closes
            exact absurd ⟨[], [], rest, rfl, .nothing⟩ unclosed
          · rw [scan_of_advance (advance_plain backslash closes)]
            refine ih fun ⟨source, value, after, whole, quotes⟩ => unclosed ?_
            exact ⟨c :: source, _, after, congrArg (c :: ·) whole, .plain backslash closes quotes⟩

/-! ## What stands before the quotes -/

theorem isNamePart_quote (isQ : isQuote quote = true) : isNamePart quote = false := by
  rcases isQuote_iff.mp isQ with rfl | rfl <;> rfl

theorem isNumberPart_quote (isQ : isQuote quote = true) (taken : List Char) :
    isNumberPart taken quote = false := by
  rcases isQuote_iff.mp isQ with rfl | rfl <;> rfl

/-- A quote ends the token before it as the end of the text does. -/
theorem scan_quote (isQ : isQuote quote = true) (concluded : conclude mode = .ok ts) :
    scan mode offset (quote :: rest) = (scan .between offset (quote :: rest)).map (ts ++ ·) := by
  cases mode with
  | between =>
      cases concluded
      cases scan .between offset (quote :: rest) <;> rfl
  | quoted => cases concluded
  | number start taken =>
      obtain ⟨token, finished, concluded⟩ := exists_of_bind_ok concluded
      cases concluded
      rw [scan_stops (advance_number_stops (isNumberPart_quote isQ taken)), finished]
      rfl
  | name start taken =>
      cases concluded
      rw [scan_stops (advance_name_stops (isNamePart_quote isQ))]
      rfl

/-- Characters that can be cut by themselves are cut the same before a quote. -/
theorem scan_append_quote (isQ : isQuote quote = true) (cut : scan mode offset before = .ok ts) :
    scan mode offset (before ++ quote :: rest) =
      (scan .between (offset + width before) (quote :: rest)).map (ts ++ ·) := by
  induction before generalizing mode offset ts with
  | nil => exact scan_quote isQ cut
  | cons c before ih =>
      rw [scan] at cut
      obtain ⟨step, stepped, cut⟩ := exists_of_bind_ok cut
      obtain ⟨more, further, cut⟩ := exists_of_bind_ok cut
      cases cut
      rw [List.cons_append, scan, stepped]
      show (scan step.2 (offset + c.utf8Size) (before ++ quote :: rest) >>= fun more =>
        .ok (step.1 ++ more)) = _
      rw [ih further, width_cons, ← Nat.add_assoc]
      cases scan .between (offset + c.utf8Size + width before) (quote :: rest) with
      | error e => rfl
      | ok more' => simp [Except.map, bind, Except.bind]

/-! ## Refused for a quote that is not closed -/

/-- Tokens are never refused for a quote. -/
theorem fault_of_run {length : Nat} {s : State} (refused : run length s ts = .error e) :
    e.fault ≠ .unterminatedText := by
  obtain ⟨_, t, -, ⟨wrong, _, -, stops⟩ | ⟨-, stops⟩⟩ := run_refused refused
  · unfold step at stops
    grind
  · unfold finish at stops
    grind

theorem read_unclosed_iff {selector text : String} :
    read selector text = .error ⟨selector, offset, .unterminatedText⟩ ↔
      tokens text = .error ⟨.unterminatedText, offset⟩ := by
  rw [read, readPairs]
  rcases tokens text with ⟨fault, place⟩ | ts
  · simp [bind, Except.bind, and_comm]
  · simp only [bind, Except.bind, reduceCtorEq, iff_false]
    rcases ended : run text.utf8ByteSize (.key [] []) ts with e | pairs
    · have other := fault_of_run ended
      simp [other]
    · simp

theorem toList_literal (quote : Char) (s : String) :
    (literal quote s).toList = quote :: (escape quote s.toList ++ [quote]) :=
  String.toList_ofList

/-- A quote that nothing closes is refused at its place, and one that something closes is not,
whatever is wrong after it: that stands further on. -/
theorem tokens_unclosed_iff {before : String} (isQ : isQuote quote = true)
    (cut : tokens before = .ok ts) (rest : String) :
    tokens (before.push quote ++ rest) = .error ⟨.unterminatedText, before.utf8ByteSize⟩ ↔
      ¬ Closes quote rest.toList := by
  have opened : tokens (before.push quote ++ rest) =
      (scan (.quoted quote before.utf8ByteSize [] false)
        (before.utf8ByteSize + quote.utf8Size) rest.toList).map (ts ++ ·) := by
    rw [tokens, String.toList_append, String.toList_push, List.append_assoc,
      List.singleton_append, scan_append_quote isQ cut, Nat.zero_add, ← utf8ByteSize_eq_width,
      scan_open isQ]
  rw [opened, closes_iff]
  constructor
  · rintro refused ⟨source, value, after, whole, quotes⟩
    rw [whole, scan_quotes isQ quotes] at refused
    rcases further : scan .between
      (before.utf8ByteSize + quote.utf8Size + width source + quote.utf8Size) after with e | more
    · rw [further] at refused
      have place : e.offset = before.utf8ByteSize := congrArg (·.offset) (Except.error.inj refused)
      rcases offset_of_scan further with begins | ⟨_, _, _, _, later⟩
      · cases begins
      · have wide := quote.utf8Size_pos
        omega
    · rw [further] at refused
      cases refused
  · intro unclosed
    rw [scan_unclosed unclosed]
    rfl

/-- Between quotes of either kind every text can be written, wherever a token may begin, and is
read as it was, with what follows read from there on.  A quote that nothing closes is what
the declaration is refused for, at the place of that quote. -/
theorem literals_read_back {before : String} (isQ : isQuote quote = true)
    (cut : tokens before = .ok ts) :
    (∀ s r : String, tokens (before ++ literal quote s ++ r) =
      (scan .between (before ++ literal quote s).utf8ByteSize r.toList).map
        (ts ++ ⟨.text s, before.utf8ByteSize⟩ :: ·)) ∧
    ∀ selector rest : String,
      read selector (before.push quote ++ rest) =
          .error ⟨selector, before.utf8ByteSize, .unterminatedText⟩ ↔
        ¬ Closes quote rest.toList := by
  refine ⟨fun s r => ?_, fun selector rest =>
    read_unclosed_iff.trans (tokens_unclosed_iff isQ cut rest)⟩
  have whole : (before ++ literal quote s ++ r).toList =
      before.toList ++ quote :: (escape quote s.toList ++ quote :: r.toList) := by
    simp [toList_literal]
  have size : (before ++ literal quote s).utf8ByteSize =
      before.utf8ByteSize + quote.utf8Size + width (escape quote s.toList) + quote.utf8Size := by
    simp [utf8ByteSize_eq_width, toList_literal, Nat.add_assoc]
  rw [tokens, whole, scan_append_quote isQ cut, Nat.zero_add, ← utf8ByteSize_eq_width,
    scan_open isQ, scan_quotes isQ (quotes_escape isQ s.toList), size]
  cases scan .between _ r.toList <;> simp [Except.map]

end Declaration

open Declaration

namespace Sample

/-- A key of two bytes between its quotes, and a number up to the end. -/
def numbered : String := "'é': -12"

def numberedTokens : List Placed :=
  [⟨.text "é", 0⟩, ⟨.colon, 4⟩, ⟨.number (.int (-12)), 6⟩]

end Sample

open Sample in
/-- Right after the number a text is opened.  In the first place it is a backslash, a letter and
a quote; in the second the only other quote is escaped, by the last of three backslashes. -/
theorem Declaration.literals_read_back_numbered :
    isQuote '\'' = true ∧ tokens numbered = .ok numberedTokens ∧
      literal '\'' "\\n'" = "'\\\\n\\''" ∧
      tokens (numbered ++ literal '\'' "\\n'" ++ ":") =
        .ok (numberedTokens ++ [⟨.text "\\n'", 9⟩, ⟨.colon, 16⟩]) ∧
      read "p" (numbered.push '\'' ++ "\\\\\\':") = .error ⟨"p", 9, .unterminatedText⟩ ∧
      ¬ Closes '\'' "\\\\\\':".toList := by
  have isQ : isQuote '\'' = true := rfl
  have cut : tokens numbered = .ok numberedTokens := by decide +kernel
  obtain ⟨readsBack, refuses⟩ := literals_read_back isQ cut
  have refused : read "p" (numbered.push '\'' ++ "\\\\\\':") =
      .error ⟨"p", 9, .unterminatedText⟩ := by rfl
  have size : (numbered ++ literal '\'' "\\n'").utf8ByteSize = 16 := by decide +kernel
  have colon : scan .between 16 ":".toList = .ok [⟨.colon, 16⟩] := by decide +kernel
  have after := readsBack "\\n'" ":"
  rw [size, colon] at after
  exact ⟨isQ, cut, by decide +kernel, after, refused, (refuses "p" _).mp refused⟩

end LiveBinding
