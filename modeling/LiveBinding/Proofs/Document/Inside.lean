/-
# LiveBinding.Proofs.Document.Inside -- text and markup of an element

Setting the text of an element writes the markup that shows it.  That markup has no tags and
no ampersands but those of entities, and whoever reads the entities back has the text again
(`Content.Spells`, `Document.setText_spells`).

Setting markup drops the tags and keeps the rest as it stands: it does not read `&amp;`,
`&lt;` and `&gt;` back.  So an element whose own markup is written back keeps the markup, and
has the markup as its text too (`Document.setHtml_of_setText`).  That is the text it had
exactly when the text has no character that markup writes in another way.

* `escape_eq_flatMap`: the three passes of `escape` write one character after another;
* `escape_eq_self_iff`: a text is its own markup when it has no such character;
* `stripTags_escape`: the markup of a text has no tags to drop;
* `unescape_escape`: entities read back give the text that was written out.
-/
import LiveBinding.Document.Markup
import LiveBinding.Proofs.Document.Links

namespace LiveBinding

set_option autoImplicit false

namespace Content

/-- The markup of the characters that markup does not show as themselves. -/
def entities : List String := ["&amp;", "&lt;", "&gt;"]

def escapeChar (c : Char) : List Char :=
  if c = '&' then "&amp;".toList else if c = '<' then "&lt;".toList
  else if c = '>' then "&gt;".toList else [c]

def IsPlain (c : Char) : Prop := c ≠ '&' ∧ c ≠ '<' ∧ c ≠ '>'

theorem escapeChar_of_isPlain {c : Char} (plain : IsPlain c) : escapeChar c = [c] := by
  obtain ⟨notAmp, notLess, notGreater⟩ := plain
  rw [escapeChar, if_neg notAmp, if_neg notLess, if_neg notGreater]

/-- A character is plain, or its markup is an entity. -/
theorem isPlain_or_entity (c : Char) :
    IsPlain c ∨ ∃ entity ∈ entities, escapeChar c = entity.toList := by
  unfold escapeChar IsPlain
  split_ifs with amp less greater
  · exact .inr ⟨"&amp;", by simp [entities], rfl⟩
  · exact .inr ⟨"&lt;", by simp [entities], rfl⟩
  · exact .inr ⟨"&gt;", by simp [entities], rfl⟩
  · exact .inl ⟨amp, less, greater⟩

/-- A character is plain, or its markup is longer than the character. -/
theorem isPlain_or_lt_length_escapeChar (c : Char) : IsPlain c ∨ 1 < (escapeChar c).length := by
  have long : ∀ entity ∈ entities, 1 < entity.toList.length := by decide +kernel
  refine (isPlain_or_entity c).imp_right ?_
  rintro ⟨entity, listed, shown⟩
  rw [shown]
  exact long entity listed

/-- The three passes are one: none finds anything in what an earlier one wrote. -/
theorem escape_eq_flatMap (cs : List Char) : escape cs = cs.flatMap escapeChar := by
  simp only [escape, replaceChar, List.flatMap_assoc]
  congr 1
  funext c
  unfold escapeChar
  split_ifs with amp less greater
  · rfl
  · subst less; rfl
  · simp [greater]
  · simp [less, greater]

theorem escape_cons (c : Char) (rest : List Char) :
    escape (c :: rest) = escapeChar c ++ escape rest := by
  rw [escape_eq_flatMap, escape_eq_flatMap, List.flatMap_cons]

theorem length_le_length_escape (cs : List Char) : cs.length ≤ (escape cs).length := by
  induction cs with
  | nil => exact Nat.le_refl 0
  | cons c rest ih =>
      have one : 1 ≤ (escapeChar c).length := by
        rcases isPlain_or_lt_length_escapeChar c with plain | longer
        · rw [escapeChar_of_isPlain plain]; exact Nat.le_refl 1
        · omega
      rw [escape_cons, List.length_append, List.length_cons]
      omega

theorem escape_eq_self_iff (cs : List Char) : escape cs = cs ↔ ∀ c ∈ cs, IsPlain c := by
  constructor
  · induction cs with
    | nil => exact fun _ _ none => absurd none List.not_mem_nil
    | cons c rest ih =>
        intro same
        rw [escape_cons] at same
        rcases isPlain_or_lt_length_escapeChar c with plain | longer
        · rw [escapeChar_of_isPlain plain, List.singleton_append, List.cons_inj_right] at same
          exact List.forall_mem_cons.mpr ⟨plain, ih same⟩
        · have lengths := congrArg List.length same
          have grows := length_le_length_escape rest
          rw [List.length_append, List.length_cons] at lengths
          omega
  · intro plain
    induction cs with
    | nil => rfl
    | cons c rest ih =>
        obtain ⟨first, others⟩ := List.forall_mem_cons.mp plain
        rw [escape_cons, escapeChar_of_isPlain first, ih others, List.singleton_append]

theorem stripTags_of_no_tags {cs : List Char} (no : ∀ c ∈ cs, c ≠ '<' ∧ c ≠ '>') :
    stripTags false cs = cs := by
  induction cs with
  | nil => rfl
  | cons c rest ih =>
      obtain ⟨⟨notLess, notGreater⟩, others⟩ := List.forall_mem_cons.mp no
      rw [stripTags, if_neg notLess, if_neg notGreater, if_neg Bool.false_ne_true, ih others]

theorem not_angle_of_mem_escapeChar {c shown : Char} (written : c ∈ escapeChar shown) :
    c ≠ '<' ∧ c ≠ '>' := by
  have angleFree : ∀ entity ∈ entities, ∀ c ∈ entity.toList, c ≠ '<' ∧ c ≠ '>' := by
    simp [entities]
  rcases isPlain_or_entity shown with plain | ⟨entity, listed, same⟩
  · rw [escapeChar_of_isPlain plain, List.mem_singleton] at written
    rw [written]
    exact plain.2
  · rw [same] at written
    exact angleFree entity listed c written

theorem not_angle_of_mem_escape {c : Char} {cs : List Char} (listed : c ∈ escape cs) :
    c ≠ '<' ∧ c ≠ '>' := by
  rw [escape_eq_flatMap] at listed
  obtain ⟨shown, -, written⟩ := List.mem_flatMap.mp listed
  exact not_angle_of_mem_escapeChar written

/-- The markup of a text has no tags. -/
theorem stripTags_escape (cs : List Char) : stripTags false (escape cs) = escape cs :=
  stripTags_of_no_tags fun _ => not_angle_of_mem_escape

/-! ## Entities -/

/-- What markup stands for, entities being read from the left to the right. -/
def unescape : List Char → List Char
  | '&' :: 'a' :: 'm' :: 'p' :: ';' :: rest => '&' :: unescape rest
  | '&' :: 'l' :: 't' :: ';' :: rest => '<' :: unescape rest
  | '&' :: 'g' :: 't' :: ';' :: rest => '>' :: unescape rest
  | c :: rest => c :: unescape rest
  | [] => []

/-- The markup stands for the text and holds nothing else: no tags, no ampersand but those of
entities. -/
structure Spells (markup text : String) : Prop where
  angles : ∀ c ∈ markup.toList, c ≠ '<' ∧ c ≠ '>'
  ampersands : ∀ before after, markup.toList = before ++ '&' :: after →
    ∃ entity ∈ entities, entity.toList <+: '&' :: after
  reads : unescape markup.toList = text.toList
  blank : markup = "" ↔ text = ""

theorem unescape_cons {c : Char} (notAmp : c ≠ '&') (rest : List Char) :
    unescape (c :: rest) = c :: unescape rest := by
  rw [unescape.eq_4] <;> rintro _ rfl <;> exact absurd rfl notAmp

/-- The markup of a character is read back, whatever follows. -/
theorem unescape_escapeChar (c : Char) (rest : List Char) :
    unescape (escapeChar c ++ rest) = c :: unescape rest := by
  unfold escapeChar
  split_ifs with amp less greater
  · rw [amp]; rfl
  · rw [less]; rfl
  · rw [greater]; rfl
  · exact unescape_cons amp rest

theorem unescape_escape (cs : List Char) : unescape (escape cs) = cs := by
  induction cs with
  | nil => rfl
  | cons c rest ih => rw [escape_cons, unescape_escapeChar, ih]

/-- An ampersand in the markup of a character is where an entity begins, and that is all the
markup is. -/
theorem entity_of_escapeChar {c : Char} {before after : List Char}
    (written : escapeChar c = before ++ '&' :: after) :
    ∃ entity ∈ entities, entity.toList = '&' :: after := by
  have first : ∀ entity ∈ entities, '&' ∉ entity.toList.tail := by decide +kernel
  rcases isPlain_or_entity c with plain | ⟨entity, listed, shown⟩
  · rw [escapeChar_of_isPlain plain] at written
    cases before with
    | nil => exact absurd (List.cons.inj written).1 plain.1
    | cons b before => simp at written
  · rw [shown] at written
    cases before with
    | nil => exact ⟨entity, listed, written⟩
    | cons b before =>
        refine absurd ?_ (first entity listed)
        rw [written]
        exact List.mem_append_right _ List.mem_cons_self

/-- Ampersands of markup begin entities. -/
theorem entity_of_escape {cs before after : List Char}
    (written : escape cs = before ++ '&' :: after) :
    ∃ entity ∈ entities, entity.toList <+: '&' :: after := by
  induction cs generalizing before with
  | nil =>
      have lengths := congrArg List.length written
      simp [escape, replaceChar] at lengths
  | cons c rest ih =>
      rw [escape_cons] at written
      -- the ampersand is in the markup of the others, or in that of `c`
      rcases List.append_eq_append_iff.mp written with ⟨more, -, later⟩ | ⟨more, here, tail⟩
      · exact ih later
      · cases more with
        | nil =>
            have later : escape rest = [] ++ '&' :: after := tail.symm
            exact ih later
        | cons m more =>
            obtain ⟨rfl, rfl⟩ := List.cons.inj tail
            obtain ⟨entity, listed, whole⟩ := entity_of_escapeChar here
            exact ⟨entity, listed, escape rest, by rw [whole]; rfl⟩

theorem spells_escape (s : String) : Spells (String.ofList (escape s.toList)) s where
  angles c listed := by
    rw [String.toList_ofList] at listed
    exact not_angle_of_mem_escape listed
  ampersands before after written := by
    rw [String.toList_ofList] at written
    exact entity_of_escape written
  reads := by rw [String.toList_ofList, unescape_escape]
  blank := by
    have nothing : escape s.toList = [] ↔ s.toList = [] := by
      constructor
      · intro none
        rw [← unescape_escape s.toList, none]
        rfl
      · intro none
        rw [none]
        rfl
    rw [← String.toList_inj, ← String.toList_inj, String.toList_ofList]
    exact nothing

/-- Markup tells what text it stands for. -/
theorem Spells.unique {markup text text' : String} (spells : Spells markup text)
    (spells' : Spells markup text') : text' = text :=
  String.toList_inj.mp (spells'.reads.symm.trans spells.reads)

end Content

namespace Document

variable {d : Document} {e : Ref .element} {element : Element}

theorem get?_amend_self (present : d.get? e = some element) (f : Content → Content) :
    (d.amend e f).get? e = some { element with content := f element.content } := by
  rw [amend, get?_modify_self, present, Option.map_some]

/-- What writing back the markup of a text does.  The text that was set shows as some
markup; written back, the markup stays, but it becomes the text as well, which is the text
that was set only if that is its own markup. -/
theorem setHtml_of_setText (present : d.get? e = some element) (s : String) :
    ∃ markup : String,
      (d.apply (.setText e s)).get? e =
        some { element with content := { element.content with text := s, html := markup } } ∧
      ((d.apply (.setText e s)).apply (.setHtml e markup)).get? e =
        some { element with content := { element.content with text := markup, html := markup } } ∧
      (markup = s ↔ ∀ c ∈ s.toList, Content.IsPlain c) := by
  have shown : (d.apply (.setText e s)).get? e =
      some { element with content := element.content.setText s } :=
    get?_amend_self present _
  refine ⟨String.ofList (Content.escape s.toList), shown, ?_, ?_⟩
  · have kept : Content.stripTags false (String.ofList (Content.escape s.toList)).toList =
        Content.escape s.toList := by
      rw [String.toList_ofList, Content.stripTags_escape]
    refine (get?_amend_self shown _).trans ?_
    rw [Content.setHtml, kept]
    rfl
  · rw [← Content.escape_eq_self_iff, ← String.toList_inj, String.toList_ofList]

/-- The text of an element is written out in its markup.  Other texts have other markup, and
an element without children stands with this markup between its tags. -/
theorem setText_spells (present : d.get? e = some element) (s : String) :
    ∃ markup : String,
      (d.apply (.setText e s)).get? e =
        some { element with content := { element.content with text := s, html := markup } } ∧
      Content.Spells markup s ∧
      (∀ s' other, (d.apply (.setText e s')).get? e = some other → other.content.html = markup →
        s' = s) ∧
      (element.children = [] → ∀ depth indent,
        (d.apply (.setText e s)).markupAt (depth + 1) indent e =
          Text.repeated indent "  " ++ openTag element.content ++ markup ++ "</" ++
            element.content.tag ++ ">\n") := by
  have shown : ∀ s, (d.apply (.setText e s)).get? e =
      some { element with content := element.content.setText s } :=
    fun s => get?_amend_self present _
  have spells := Content.spells_escape s
  refine ⟨String.ofList (Content.escape s.toList), shown s, spells, ?_, ?_⟩
  · intro s' other found same
    cases (shown s').symm.trans found
    refine spells.unique ?_
    rw [← same]
    exact Content.spells_escape s'
  · intro childless depth indent
    have inner : inside (element.content.setText s) = String.ofList (Content.escape s.toList) := by
      unfold inside
      split
      next none =>
        have text : s = "" := spells.blank.mp none
        rw [text]
        rfl
      next => rfl
    rw [markupAt, shown s]
    simp only [childless, List.isEmpty_nil, if_true, inner]
    rfl

namespace Sample

def paragraph : Document := (empty.create "p").appendChild root ⟨1⟩

def paragraphWith (content : Content) : Element := ⟨content, some root, [], []⟩

end Sample

open Document.Sample in
theorem setHtml_of_setText_quote :
    ∃ markup : String,
      (paragraph.apply (.setText ⟨1⟩ "&lt; ok")).get? ⟨1⟩ =
        some (paragraphWith { Content.ofTag "p" with text := "&lt; ok", html := markup }) ∧
      ((paragraph.apply (.setText ⟨1⟩ "&lt; ok")).apply (.setHtml ⟨1⟩ markup)).get? ⟨1⟩ =
        some (paragraphWith { Content.ofTag "p" with text := markup, html := markup }) ∧
      (markup = "&lt; ok" ↔ ∀ c ∈ "&lt; ok".toList, Content.IsPlain c) :=
  have present : paragraph.get? ⟨1⟩ = some (paragraphWith (.ofTag "p")) := rfl
  setHtml_of_setText present "&lt; ok"

open Document.Sample in
/-- A text that looks like markup already. -/
theorem setText_spells_quote :
    paragraph.get? ⟨1⟩ = some (paragraphWith (.ofTag "p")) ∧
      Content.Spells "2 &gt; 1 &amp;amp; 1 &lt; 2" "2 > 1 &amp; 1 < 2" ∧
      (paragraph.apply (.setText ⟨1⟩ "2 > 1 &amp; 1 < 2")).markup ⟨1⟩ =
        "<p>2 &gt; 1 &amp;amp; 1 &lt; 2</p>\n" := by
  have present : paragraph.get? ⟨1⟩ = some (paragraphWith (.ofTag "p")) := rfl
  obtain ⟨markup, shown, spells, -, written⟩ := setText_spells present "2 > 1 &amp; 1 < 2"
  have same : "2 &gt; 1 &amp;amp; 1 &lt; 2" = markup := by
    have found := congrArg (Option.map fun element => element.content.html) shown
    rw [Option.map_some] at found
    refine Option.some.inj (Eq.trans ?_ found)
    decide +kernel
  refine ⟨present, same ▸ spells, (written rfl 2 0).trans ?_⟩
  rw [← same]
  decide +kernel

open Document.Sample in
/-- Written back, the markup `a &lt; b` of the text `a < b` is the text. -/
theorem text_lost_in_setHtml :
    ¬ ∀ (d : Document) (e : Ref .element) (s : String) (shown back : Element),
      d.contains e = true → (d.apply (.setText e s)).get? e = some shown →
      ((d.apply (.setText e s)).apply (.setHtml e shown.content.html)).get? e = some back →
      back.content.text = s ∧ back.content.html = shown.content.html := by
  intro always
  have same := (always paragraph ⟨1⟩ "a < b" _ _ (by decide) rfl rfl).1
  revert same
  decide +kernel

end Document

end LiveBinding
