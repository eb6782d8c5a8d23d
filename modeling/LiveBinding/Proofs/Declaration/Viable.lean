/-
# LiveBinding.Proofs.Declaration.Viable -- a fault stands at the first wrong token

Tokens are viable when more tokens can follow them so that all together derive from a
declaration.  Whatever state the reader is in, it can be brought to an end
(`State.isCompletable`): a stack is worked off from the inside out, a parenthesis for each
parenthesis and a brace for each pair in an object.  So all that the reader has taken is
viable, and a token that it does not take makes it unviable, since whatever the grammar
derives is read to its end (`Derives.reaches`).

So a refused text is refused at the first token that no declaration could have there, the
end of the text being such a token too (`fault_at_first_wrong`).
-/
import LiveBinding.Proofs.Declaration.Grammar

namespace LiveBinding

set_option autoImplicit false

namespace Declaration

variable {s t : State} {ts before : List Placed} {placed wrong : Placed} {e : Misplaced}

/-! ## Reading on to an end -/

/-- There are tokens after which the text may end. -/
def State.IsCompletable (s : State) : Prop :=
  ∃ more pairs, ∀ length, run length s more = .ok pairs

namespace State.IsCompletable

theorem of_finish {pairs : List Pair} (ends : ∀ length, finish length s = .ok pairs) :
    s.IsCompletable :=
  ⟨[], pairs, ends⟩

theorem of_step (placed : Placed) (taken : step s placed = .ok t) (completable : t.IsCompletable) :
    s.IsCompletable := by
  obtain ⟨more, pairs, ends⟩ := completable
  refine ⟨placed :: more, pairs, fun length => ?_⟩
  rw [run, taken]
  exact ends length

end State.IsCompletable

/-- What waits for an expression, and what waits for that, can all be closed. -/
theorem isCompletable_deliver (x : Expr) (stack : List Frame) : (deliver x stack).IsCompletable := by
  induction stack generalizing x with
  | nil => exact .of_finish fun _ => rfl
  | cons frame stack ih =>
      cases frame with
      | negation => exact ih _
      | parenthesis => exact .of_step ⟨.closeParen, 0⟩ rfl (ih x)
      | pair before key offset =>
          rw [deliver]
          cases stack with
          | nil => exact .of_finish fun _ => rfl
          | cons outer rest => exact .of_step ⟨.closeBrace, 0⟩ rfl (ih (objectOf _))

theorem State.isCompletable (s : State) : s.IsCompletable := by
  have awaiting : ∀ stack, (State.expression stack).IsCompletable := fun stack =>
    .of_step ⟨.text "", 0⟩ rfl (isCompletable_deliver _ stack)
  cases s with
  | key pairs stack =>
      cases stack with
      | nil => exact .of_finish fun _ => rfl
      | cons frame rest =>
          exact .of_step ⟨.closeBrace, 0⟩ rfl (isCompletable_deliver (objectOf pairs) _)
  | colon pairs key offset stack => exact .of_step ⟨.colon, 0⟩ rfl (awaiting _)
  | expression stack => exact awaiting stack
  | closing inner stack =>
      exact .of_step ⟨.closeParen, 0⟩ rfl (isCompletable_deliver inner stack)
  | separator pairs stack =>
      cases stack with
      | nil => exact .of_finish fun _ => rfl
      | cons frame rest =>
          exact .of_step ⟨.closeBrace, 0⟩ rfl (isCompletable_deliver (objectOf pairs) _)

/-! ## Where reading stops -/

/-- A token that is not taken is where the fault stands. -/
theorem offset_of_step (refused : step s placed = .error e) : e.offset = placed.offset := by
  unfold step at refused
  grind

/-- A text that may not end has its fault at its end. -/
theorem offset_of_finish {length : Nat} (refused : finish length s = .error e) :
    e.offset = length := by
  unfold finish at refused
  split at refused <;> cases refused <;> rfl

/-- Tokens that are refused are taken up to one that is not, or up to their end. -/
theorem run_refused {length : Nat} (refused : run length s ts = .error e) :
    ∃ before t, Reaches s before t ∧
      ((∃ wrong after, ts = before ++ wrong :: after ∧ step t wrong = .error e) ∨
        ts = before ∧ finish length t = .error e) := by
  induction ts generalizing s with
  | nil => exact ⟨[], s, .refl s, .inr ⟨rfl, refused⟩⟩
  | cons placed rest ih =>
      rw [run] at refused
      rcases taken : step s placed with fault | u
      · rw [taken] at refused
        cases refused
        exact ⟨[], s, .refl s, .inl ⟨placed, rest, rfl, taken⟩⟩
      · rw [taken] at refused
        obtain ⟨before, t, reaches, stops⟩ := ih refused
        refine ⟨placed :: before, t, reaches.cons taken, ?_⟩
        rcases stops with ⟨wrong, after, rfl, stops⟩ | ⟨rfl, stops⟩
        · exact .inl ⟨wrong, after, rfl, stops⟩
        · exact .inr ⟨rfl, stops⟩

/-! ## Viable tokens -/

/-- More tokens can follow so that all together derive from a declaration. -/
def Viable (ts : List Placed) : Prop :=
  ∃ more written, Derives (ts ++ more) (.list written)

/-- What is taken from the beginning is viable. -/
theorem Reaches.viable (reaches : Reaches (.key [] []) before t) : Viable before := by
  obtain ⟨more, pairs, ends⟩ := t.isCompletable
  have read : run 0 (.key [] []) (before ++ more) = .ok pairs := (reaches 0 more).trans (ends 0)
  obtain ⟨written, derives, -⟩ := run_iff_derives.mp read
  exact ⟨more, written, derives⟩

/-- With a token that is then not taken it is no more. -/
theorem Reaches.not_viable (reaches : Reaches (.key [] []) before t)
    (refused : step t wrong = .error e) : ¬ Viable (before ++ [wrong]) := by
  rintro ⟨more, written, derives⟩
  have read : run 0 (.key [] []) (before ++ [wrong] ++ more) = .ok (Pair.settled written) :=
    run_iff_derives.mpr ⟨written, derives, rfl⟩
  rw [List.append_assoc, reaches, List.singleton_append, run, refused] at read
  cases read

/-- A text that can be cut into tokens, but is not read, is refused at its first wrong
token: what stands before can still become a declaration, and together with that token it
can not.  The end of the text counts as a token; what stands before it is then all there
is, and no declaration yet. -/
theorem fault_at_first_wrong {selector text : String} {error : DeclarationError}
    (cut : tokens text = .ok ts) (refused : read selector text = .error error) :
    ∃ before, Viable before ∧
      ((∃ wrong after, ts = before ++ wrong :: after ∧ error.offset = wrong.offset ∧
          ¬ Viable (before ++ [wrong])) ∨
        ts = before ∧ error.offset = text.utf8ByteSize ∧
          ¬ ∃ written, Derives ts (.list written)) := by
  have read_ : readPairs text = run text.utf8ByteSize (.key [] []) ts := by
    rw [readPairs, cut]
    rfl
  rw [read, read_] at refused
  rcases ended : run text.utf8ByteSize (.key [] []) ts with fault | pairs
  · rw [ended] at refused
    cases refused
    obtain ⟨before, t, reaches, ⟨wrong, after, rfl, stops⟩ | ⟨rfl, stops⟩⟩ := run_refused ended
    · exact ⟨before, reaches.viable,
        .inl ⟨wrong, after, rfl, offset_of_step stops, reaches.not_viable stops⟩⟩
    · refine ⟨ts, reaches.viable, .inr ⟨rfl, offset_of_finish stops, ?_⟩⟩
      rintro ⟨written, derives⟩
      rw [run_iff_derives.mpr ⟨written, derives, rfl⟩] at ended
      cases ended
  · rw [ended] at refused
    cases refused

end Declaration

open Declaration

namespace Sample

/-- Inside an object two expressions follow one another, and then more that is wrong. -/
def crowded : String := "a: \x7b'é':b c !"

def uncrowded : List Placed :=
  [⟨.name "a", 0⟩, ⟨.colon, 1⟩, ⟨.openBrace, 3⟩, ⟨.text "é", 4⟩, ⟨.colon, 8⟩, ⟨.name "b", 9⟩]

end Sample

open Sample in
/-- The second expression is one too many; what comes after it does not matter. -/
theorem Declaration.fault_at_first_wrong_crowded :
    tokens crowded = .ok (uncrowded ++ [⟨.name "c", 11⟩, ⟨.bang, 13⟩]) ∧
      read "p" crowded = .error ⟨"p", 11, .expectedCommaOrBrace (some (.name "c"))⟩ ∧
      ∃ before, Viable before ∧
        ((∃ wrong after, uncrowded ++ [⟨.name "c", 11⟩, ⟨.bang, 13⟩] = before ++ wrong :: after ∧
            11 = wrong.offset ∧ ¬ Viable (before ++ [wrong])) ∨
          uncrowded ++ [⟨.name "c", 11⟩, ⟨.bang, 13⟩] = before ∧ 11 = crowded.utf8ByteSize ∧
            ¬ ∃ written, Derives (uncrowded ++ [⟨.name "c", 11⟩, ⟨.bang, 13⟩]) (.list written)) := by
  have cut : tokens crowded = .ok (uncrowded ++ [⟨.name "c", 11⟩, ⟨.bang, 13⟩]) := by
    decide +kernel
  have refused : read "p" crowded =
      .error ⟨"p", 11, .expectedCommaOrBrace (some (.name "c"))⟩ := by rfl
  exact ⟨cut, refused, fault_at_first_wrong cut refused⟩

end LiveBinding
