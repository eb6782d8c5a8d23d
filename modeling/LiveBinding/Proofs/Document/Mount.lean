/-
# LiveBinding.Proofs.Document.Mount -- markup stands as it is written down

Mounting edits a document element by element.  What comes of it can be told without the
edits: fixtures stand in a document from a number on when the first has that number, its
children stand below it from the next number on, and the rest stands from where they end
(`Document.Stand`).  So the numbers are handed out in preorder, and every element has its
place in the listing of the fixtures in that order (`Fixture.preorder`).

Mounting goes on at the end of the document, and of what was there before only the parent
changes, which gets the roots of the fixtures as its last children
(`Document.stand_mountAll`).  In a document that is mounted whole an identifier that is
written once is found where it is written (`Document.mountAll_reproduces`).
-/
import LiveBinding.Document.Fixture
import LiveBinding.Proofs.Document.Inside
import LiveBinding.Proofs.Document.Query

namespace LiveBinding

set_option autoImplicit false

namespace Fixture

/-- The capitals of the alphabet, each with its small letter. -/
def capitals : List (Char × Char) :=
  "ABCDEFGHIJKLMNOPQRSTUVWXYZ".toList.zip "abcdefghijklmnopqrstuvwxyz".toList

/-- A capital becomes its small letter; any other character is kept. -/
def small (c : Char) : Char :=
  (capitals.lookup c).getD c

/-- What the element of a fixture shows. -/
def content : Fixture → Content
  | .element tag id classes text value _ =>
      { tag := String.ofList (tag.toList.map small)
        id := id
        classes := classes.eraseDups
        attributes := []
        properties := []
        styles := []
        html := String.ofList ((text.getD "").toList.flatMap Content.escapeChar)
        text := text.getD ""
        value := value.getD ""
        visible := true }

mutual

def preorder : Fixture → List Fixture
  | .element tag id classes text value children =>
      .element tag id classes text value children :: preorderAll children

def preorderAll : List Fixture → List Fixture
  | [] => []
  | fixture :: rest => fixture.preorder ++ preorderAll rest

end

theorem preorderAll_cons (f : Fixture) (rest : List Fixture) :
    preorderAll (f :: rest) = f :: (preorderAll f.children ++ preorderAll rest) := by
  cases f
  rfl

/-- What holds of no fixtures, and of some whenever it holds of the children of the first and
of the others, holds of all lists of fixtures. -/
theorem forest_induction {P : List Fixture → Prop} (nil : P [])
    (cons : ∀ f rest, P f.children → P rest → P (f :: rest)) : ∀ fixtures, P fixtures
  | [] => nil
  | .element tag id classes text value children :: rest =>
      cons (.element tag id classes text value children) rest (forest_induction nil cons children)
        (forest_induction nil cons rest)

theorem allIds_eq_filterMap (fixtures : List Fixture) :
    allIds fixtures = (preorderAll fixtures).filterMap id? := by
  induction fixtures using forest_induction with
  | nil => rfl
  | cons f rest below beside =>
      obtain ⟨tag, id, classes, text, value, children⟩ := f
      rw [allIds, ids, preorderAll_cons, beside, List.filterMap_cons, List.filterMap_append,
        show allIds children = (preorderAll children).filterMap id? from below]
      cases id <;> rfl

theorem small_of_capital {c : Char} (first : 'A' ≤ c) (last : c ≤ 'Z') :
    small c = Char.ofNat (c.toNat + 32) := by
  have all : ∀ n < 26, small (Char.ofNat (65 + n)) = Char.ofNat (65 + n + 32) := by decide
  have low : 65 ≤ c.toNat := first
  have high : c.toNat ≤ 90 := last
  have here := all (c.toNat - 65) (by omega)
  rwa [Nat.add_sub_cancel' low, Char.ofNat_toNat] at here

theorem small_of_not_capital {c : Char} (other : ¬ ('A' ≤ c ∧ c ≤ 'Z')) : small c = c := by
  have all : ∀ pair ∈ capitals, 'A' ≤ pair.1 ∧ pair.1 ≤ 'Z' := by decide
  have none : capitals.lookup c = none := by
    refine List.lookup_eq_none_iff.mpr fun pair listed => ?_
    rw [bne_iff_ne]
    rintro rfl
    exact other (all pair listed)
  rw [small, none, Option.getD_none]

/-- Lower case is that of the capitals, one after another. -/
theorem lowerAscii_eq_map_small (s : String) :
    Text.lowerAscii s = String.ofList (s.toList.map small) := by
  refine congrArg String.ofList (List.map_congr_left fun c _ => ?_)
  split
  · rename_i capital
    exact (small_of_capital capital.1 capital.2).symm
  · rename_i other
    exact (small_of_not_capital other).symm

/-- Adding classes one by one keeps the first of each. -/
theorem foldl_toggleClass (classes : List String) (c : Content) :
    classes.foldl (fun c name => c.toggleClass name true) c =
      { c with classes := c.classes ++ (classes.filter (· ∉ c.classes)).eraseDups } := by
  induction classes generalizing c with
  | nil => simp
  | cons name rest ih =>
      rw [List.foldl_cons, ih]
      by_cases there : name ∈ c.classes
      · have same : c.toggleClass name true = c := by simp [Content.toggleClass, Content.hasClass, there]
        rw [same, List.filter_cons_of_neg (by simpa using there)]
      · have added : c.toggleClass name true = { c with classes := c.classes ++ [name] } := by
          simp [Content.toggleClass, Content.hasClass, there]
        rw [added, List.filter_cons_of_pos (by simpa using there), List.eraseDups_cons,
          List.filter_filter]
        simp only [List.append_assoc, List.singleton_append]
        congr 4
        refine List.filter_congr fun other _ => ?_
        simp [Bool.and_comm, not_or, beq_eq_decide]

/-- The element of a fixture shows what is written down. -/
theorem dress_ofTag (tag : String) (id : Option String) (classes : List String)
    (text value : Option String) (children : List Fixture) :
    dress id classes text value (.ofTag tag) =
      (Fixture.element tag id classes text value children).content := by
  cases id <;> cases text <;> cases value <;>
    simp [dress, foldl_toggleClass, content, Content.ofTag, Content.setId, Content.setText,
      Content.setValue, Json.displayText, Content.escape_eq_flatMap, lowerAscii_eq_map_small]

/-- Create the element of a fixture, without its children, as the last child of `parent`. -/
def place (parent : Ref .element) : Fixture → Document → Document
  | .element tag id classes text value _, d =>
      ((d.create tag).appendChild parent d.fresh).amend d.fresh (dress id classes text value)

theorem mountAll_cons (parent : Ref .element) (f : Fixture) (rest : List Fixture) (d : Document) :
    mountAll parent (f :: rest) d =
      mountAll parent rest (mountAll d.fresh f.children (f.place parent d)) := by
  cases f
  rfl

end Fixture

namespace Document

open Fixture (mountAll preorderAll)

/-- Fixtures stand in a document under `parent`, from the number `n` on and before `next`;
their own elements are `roots`.  A fixture has the first number, those below it follow, and
the others after these. -/
inductive Stand (d : Document) :
    Ref .element → Nat → List Fixture → List (Ref .element) → Nat → Prop where
  | nil (parent : Ref .element) (n : Nat) : Stand d parent n [] [] n
  | cons {parent : Ref .element} {n between next : Nat} {f : Fixture} {rest : List Fixture}
      {inner roots : List (Ref .element)}
      (here : d.get? ⟨n⟩ = some ⟨f.content, some parent, inner, []⟩)
      (below : Stand d ⟨n⟩ (n + 1) f.children inner between)
      (beside : Stand d parent between rest roots next) :
      Stand d parent n (f :: rest) (⟨n⟩ :: roots) next

variable {d d' : Document} {parent e q : Ref .element} {fixtures : List Fixture}
  {roots : List (Ref .element)} {n next : Nat}

/-! ## What mounting does -/

theorem fresh_ne (there : d.contains e = true) : e ≠ d.fresh := by
  rintro rfl
  exact Nat.lt_irrefl _ (of_decide_eq_true there)

/-- An element that has just been created stands nowhere. -/
theorem detach_create (tag : String) (d : Document) :
    (d.create tag).detach d.fresh = d.create tag := by
  rw [detach, parent_create, parent, get?_fresh]
  rfl

/-- The new element, its parent, and the others. -/
theorem get?_place (there : d.contains parent = true) (f : Fixture) :
    (f.place parent d).get? q =
      if q = d.fresh then some ⟨f.content, some parent, [], []⟩
      else if q = parent then
        (d.get? q).map fun element => { element with children := element.children ++ [d.fresh] }
      else d.get? q := by
  obtain ⟨tag, id, classes, text, value, children⟩ := f
  rw [Fixture.place, amend, get?_modify, appendChild, detach_create, get?_modify, get?_modify,
    get?_create]
  by_cases new : q = d.fresh
  · subst new
    rw [if_pos rfl, if_neg (fresh_ne there).symm, if_pos rfl, if_pos rfl, if_pos rfl,
      ← Fixture.dress_ofTag]
    rfl
  · simp only [if_neg new]

theorem length_place (parent : Ref .element) (f : Fixture) (d : Document) :
    (f.place parent d).elements.length = d.elements.length + 1 := by
  obtain ⟨tag, id, classes, text, value, children⟩ := f
  rw [Fixture.place, appendChild, detach_create]
  simp [amend, modify, create]

theorem Stand.le (stand : d.Stand parent n fixtures roots next) : n ≤ next := by
  induction stand with
  | nil parent n => exact Nat.le_refl n
  | cons _ _ _ below beside => omega

/-- Where fixtures stand depends on nothing but their own elements and those below them. -/
theorem Stand.congr (stand : d.Stand parent n fixtures roots next)
    (same : ∀ q : Ref .element, n ≤ q.index → q.index < next → d'.get? q = d.get? q) :
    d'.Stand parent n fixtures roots next := by
  induction stand with
  | nil parent n => exact .nil parent n
  | @cons parent n between next f rest inner roots here below beside inside outside =>
      have first := below.le
      have later := beside.le
      have before : n < next := by omega
      refine .cons ?_ (inside fun q low high => same q (by omega) (by omega))
        (outside fun q low high => same q (by omega) high)
      rw [same ⟨n⟩ (Nat.le_refl n) before, here]

/-- Mounted fixtures stand at the end of the document.  Of the elements that were there only
the parent changes: the roots of the fixtures become its last children. -/
theorem stand_mountAll (there : d.contains parent = true) (fixtures : List Fixture) :
    ∃ roots,
      (mountAll parent fixtures d).Stand parent d.elements.length fixtures roots
        (mountAll parent fixtures d).elements.length ∧
      ∀ q : Ref .element, q.index < d.elements.length →
        (mountAll parent fixtures d).get? q =
          if q = parent then
            (d.get? q).map fun element => { element with children := element.children ++ roots }
          else d.get? q := by
  induction fixtures using Fixture.forest_induction generalizing d parent with
  | nil =>
      refine ⟨[], .nil parent _, fun q old => ?_⟩
      rw [mountAll]
      split
      · cases d.get? q <;> simp
      · rfl
  | cons f rest below beside =>
      have created := length_place parent f d
      have new : (f.place parent d).contains d.fresh = true :=
        decide_eq_true (by rw [created]; exact Nat.lt_succ_self _)
      obtain ⟨inner, inside, kept⟩ := below new
      have grown := inside.le
      have still : (mountAll d.fresh f.children (f.place parent d)).contains parent = true :=
        decide_eq_true (Nat.lt_of_lt_of_le (of_decide_eq_true there) (by omega))
      obtain ⟨roots, outside, kept'⟩ := beside still
      have later := outside.le
      rw [Fixture.mountAll_cons]
      rw [created] at inside grown kept
      have older : parent.index < d.elements.length := of_decide_eq_true there
      -- What is below the new element is not the parent: the others leave it alone.
      have apart : ∀ q : Ref .element, d.elements.length ≤ q.index →
          q.index < (mountAll d.fresh f.children (f.place parent d)).elements.length →
          (mountAll parent rest (mountAll d.fresh f.children (f.place parent d))).get? q =
            (mountAll d.fresh f.children (f.place parent d)).get? q := by
        intro q low high
        rw [kept' q high, if_neg]
        rintro rfl
        omega
      refine ⟨d.fresh :: roots, .cons ?_ (inside.congr fun q low high => apart q (by omega) high)
        outside, fun q old => ?_⟩
      · rw [show (⟨d.elements.length⟩ : Ref .element) = d.fresh from rfl,
          apart d.fresh (Nat.le_refl _) (by exact grown), kept d.fresh (Nat.lt_succ_self _), if_pos rfl,
          get?_place there, if_pos rfl]
        rfl
      · have notNew : q ≠ d.fresh := by
          rintro rfl
          exact Nat.lt_irrefl _ old
        rw [kept' q (by omega), kept q (by omega), if_neg notNew, get?_place there, if_neg notNew]
        split
        · cases d.get? q <;> simp
        · rfl

theorem IsLinked.place (linked : d.IsLinked) (there : d.contains parent = true) (f : Fixture) :
    (f.place parent d).IsLinked := by
  obtain ⟨tag, id, classes, text, value, children⟩ := f
  have older : parent.index < d.elements.length := of_decide_eq_true there
  refine ((linked.create tag).appendChild ?_ ?_).modify (fun _ => rfl) fun _ => rfl
  · exact decide_eq_true (by simp only [Document.create, List.length_append]; omega)
  · exact decide_eq_true (by simp [Document.create, fresh])

theorem IsLinked.mountAll (linked : d.IsLinked) (there : d.contains parent = true)
    (fixtures : List Fixture) : (mountAll parent fixtures d).IsLinked := by
  induction fixtures using Fixture.forest_induction generalizing d parent with
  | nil => exact linked
  | cons f rest below beside =>
      rw [Fixture.mountAll_cons]
      have created := length_place parent f d
      have new : (f.place parent d).contains d.fresh = true :=
        decide_eq_true (by rw [created]; exact Nat.lt_succ_self _)
      obtain ⟨inner, inside, -⟩ := stand_mountAll new f.children
      have older : parent.index < d.elements.length := of_decide_eq_true there
      have grown := inside.le
      exact beside (below (linked.place there f) new) (decide_eq_true (by omega))

/-! ## Where a fixture is in the listing -/

/-- The fixtures that stand somewhere have their numbers in preorder, and each of them shows
what is written down, below an element with a lower number. -/
theorem Stand.get?_preorder (stand : d.Stand parent n fixtures roots next)
    (older : parent.index < n) :
    next = n + (preorderAll fixtures).length ∧
      ∀ k f, (preorderAll fixtures)[k]? = some f → ∃ p inner,
        d.get? ⟨n + k⟩ = some ⟨f.content, some p, inner, []⟩ ∧ p.index < n + k := by
  induction stand with
  | nil parent n => exact ⟨rfl, fun k f none => nomatch none⟩
  | @cons parent n between next f rest inner roots here below beside inside outside =>
      obtain ⟨between_eq, insides⟩ := inside (Nat.lt_succ_self n)
      have first := below.le
      obtain ⟨next_eq, outsides⟩ := outside (by omega)
      rw [Fixture.preorderAll_cons]
      refine ⟨by simp only [List.length_cons, List.length_append]; omega, fun k g listed => ?_⟩
      cases k with
      | zero =>
          cases listed
          exact ⟨parent, inner, here, older⟩
      | succ k =>
          rw [List.getElem?_cons_succ] at listed
          rcases Nat.lt_or_ge k (preorderAll f.children).length with early | late
          · rw [List.getElem?_append_left early] at listed
            obtain ⟨p, children, found, lower⟩ := insides k g listed
            have same : n + (k + 1) = n + 1 + k := by omega
            exact ⟨p, children, by rw [same, found], by omega⟩
          · rw [List.getElem?_append_right late] at listed
            obtain ⟨p, children, found, lower⟩ := outsides _ g listed
            have same : n + (k + 1) = between + (k - (preorderAll f.children).length) := by omega
            exact ⟨p, children, by rw [same, found], by omega⟩

end Document

/-! ## Selecting by identifier -/

/-- A word of a selector that stands for one identifier: it is not empty, and has no blank and
no mark in it. -/
structure IsName (id : String) : Prop where
  nonempty : id ≠ ""
  plain : ∀ c ∈ id.toList, Text.isBlank c = false ∧ c ≠ '#' ∧ c ≠ '.'

instance (id : String) : Decidable (IsName id) :=
  decidable_of_iff (id ≠ "" ∧ id.toList.all fun c =>
      decide (Text.isBlank c = false ∧ c ≠ '#' ∧ c ≠ '.'))
    ⟨fun name => ⟨name.1, fun c listed => of_decide_eq_true (List.all_eq_true.mp name.2 c listed)⟩,
      fun name => ⟨name.nonempty, List.all_eq_true.mpr fun c listed =>
        decide_eq_true (name.plain c listed)⟩⟩

theorem Text.wordsFrom_of_no_blanks {current cs : List Char} (nonempty : current ≠ [])
    (plain : ∀ c ∈ cs, isBlank c = false) :
    wordsFrom current cs = [current.reverse ++ cs] := by
  induction cs generalizing current with
  | nil => simp [wordsFrom, nonempty]
  | cons c rest ih =>
      obtain ⟨first, others⟩ := List.forall_mem_cons.mp plain
      rw [wordsFrom, if_neg (by simp [first]), ih (List.cons_ne_nil _ _) others]
      simp

theorem Compound.scan_of_no_marks {mark : Char} {word cs : List Char} {c : Compound}
    (plain : ∀ d ∈ cs, d ≠ '#' ∧ d ≠ '.') :
    scan mark word c cs = c.require mark (word.reverse ++ cs) := by
  induction cs generalizing word with
  | nil => rw [scan, List.append_nil]
  | cons d rest ih =>
      obtain ⟨⟨notHash, notDot⟩, others⟩ := List.forall_mem_cons.mp plain
      rw [scan, if_neg (not_or.mpr ⟨notHash, notDot⟩), ih others, List.reverse_cons,
        List.append_assoc, List.singleton_append]

theorem IsName.readSelector {id : String} (name : IsName id) :
    Document.readSelector ("#" ++ id) = [⟨none, some id, []⟩] := by
  have some_ : id.toList ≠ [] := fun none => name.nonempty (String.toList_eq_nil_iff.mp none)
  have words : Text.words ("#" ++ id) = ["#" ++ id] := by
    rw [Text.words, String.toList_append]
    have first : Text.wordsFrom [] ('#' :: id.toList) = Text.wordsFrom ['#'] id.toList := rfl
    rw [show "#".toList ++ id.toList = '#' :: id.toList from rfl, first,
      Text.wordsFrom_of_no_blanks (List.cons_ne_nil _ _) fun c listed => (name.plain c listed).1]
    exact congrArg (fun s => [s]) (String.toList_inj.mp (by simp))
  have read : Compound.read ("#" ++ id) = ⟨none, some id, []⟩ := by
    rw [Compound.read, String.toList_append]
    have first : Compound.scan ' ' [] .any ('#' :: id.toList) =
        Compound.scan '#' [] .any id.toList := rfl
    rw [show "#".toList ++ id.toList = '#' :: id.toList from rfl, first,
      Compound.scan_of_no_marks fun c listed => (name.plain c listed).2]
    simp [Compound.require, Compound.any, some_]
  rw [Document.readSelector, words, List.map_singleton, read]

namespace Document

open Fixture (mountAll preorderAll)

variable {d : Document} {top e : Ref .element}

/-- An element is found by an identifier that nothing else below the root has. -/
theorem query_of_only (forest : d.IsForest) {id : String} (name : IsName id)
    (below : d.IsBelow e top) (here : (d.get? e).bind (·.content.id) = some id)
    (only : ∀ other, d.IsBelow other top → (d.get? other).bind (·.content.id) = some id →
      other = e) :
    d.query top ("#" ++ id) = some e := by
  have accepted : ∀ other, d.accepts top [⟨none, some id, []⟩] other = true ↔
      (d.get? other).bind (·.content.id) = some id := by
    intro other
    cases found : d.get? other with
    | none => simp [accepts, fits, found]
    | some element => simp [accepts, fits, found, Compound.fits, climb]
  rw [query_eq_find?, name.readSelector, List.reverse_singleton]
  cases found : (d.descendants top).find? (d.accepts top [⟨none, some id, []⟩]) with
  | none =>
      have missed := List.find?_eq_none.mp found e (forest.mem_descendants.mpr below)
      exact absurd ((accepted e).mpr here) missed
  | some other =>
      have listed := forest.mem_descendants.mp (List.mem_of_find?_eq_some found)
      rw [only other listed ((accepted other).mp (List.find?_some found))]

/-! ## A document that is mounted whole -/

def ofFixtures (fixtures : List Fixture) : Document :=
  mountAll root fixtures empty

variable {fixtures : List Fixture}

theorem contains_root_empty : empty.contains root = true := rfl

/-- The fixtures are all there is but the root. -/
theorem stand_ofFixtures (fixtures : List Fixture) :
    (ofFixtures fixtures).Stand root 1 fixtures ((ofFixtures fixtures).children root)
      (ofFixtures fixtures).elements.length ∧
    (ofFixtures fixtures).parent root = none := by
  obtain ⟨roots, stand, kept⟩ := stand_mountAll contains_root_empty fixtures
  have atRoot : (ofFixtures fixtures).get? root = some ⟨.ofTag rootTag, none, roots, []⟩ :=
    kept root Nat.one_pos
  refine ⟨?_, by rw [parent, atRoot]; rfl⟩
  have roots_eq : (ofFixtures fixtures).children root = roots := by rw [children_eq, atRoot]; rfl
  rw [roots_eq]
  exact stand

/-- An element of the document is its root, or it has the place of a fixture in preorder. -/
theorem exists_preorder (there : (ofFixtures fixtures).contains e = true) :
    e = root ∨ ∃ k f p inner, e = ⟨k + 1⟩ ∧ (preorderAll fixtures)[k]? = some f ∧
      (ofFixtures fixtures).get? e = some ⟨f.content, some p, inner, []⟩ ∧ p.index < e.index := by
  obtain ⟨length_eq, places⟩ := (stand_ofFixtures fixtures).1.get?_preorder Nat.one_pos
  have inside : e.index < (ofFixtures fixtures).elements.length := of_decide_eq_true there
  obtain ⟨index⟩ := e
  cases index with
  | zero => exact Or.inl rfl
  | succ k =>
      have listed : k < (preorderAll fixtures).length := by
        simp only at inside
        omega
      obtain ⟨p, inner, found, lower⟩ := places k _ (List.getElem?_eq_getElem listed)
      rw [Nat.add_comm] at found lower
      exact Or.inr ⟨k, _, p, inner, rfl, List.getElem?_eq_getElem listed, found, lower⟩

theorem older_of_parent {c p : Ref .element} (child : (ofFixtures fixtures).parent c = some p) :
    p.index < c.index := by
  rcases exists_preorder (contains_of_parent child) with rfl | ⟨k, f, q, inner, -, -, found, lower⟩
  · rw [(stand_ofFixtures fixtures).2] at child
    cases child
  · rw [parent, found] at child
    cases child
    exact lower

theorem isForest_ofFixtures (fixtures : List Fixture) : (ofFixtures fixtures).IsForest :=
  .of_rank (isLinked_empty.mountAll contains_root_empty fixtures) Ref.index
    fun _ _ child => older_of_parent child

/-- Everything that is mounted lies below the root. -/
theorem isBelow_root (fixtures : List Fixture) (k : Nat) (few : k < (preorderAll fixtures).length) :
    (ofFixtures fixtures).IsBelow ⟨k + 1⟩ root := by
  obtain ⟨length_eq, places⟩ := (stand_ofFixtures fixtures).1.get?_preorder Nat.one_pos
  induction k using Nat.strongRecOn with
  | ind k ih =>
      obtain ⟨⟨p⟩, inner, found, lower⟩ := places k _ (List.getElem?_eq_getElem few)
      have child : (ofFixtures fixtures).IsChild ⟨k + 1⟩ ⟨p⟩ := by
        rw [IsChild, parent, Nat.add_comm k, found]
        rfl
      cases p with
      | zero => exact .single child
      | succ j =>
          have earlier : j < k := by
            simp only at lower
            omega
          exact .head child (ih j earlier (by omega))

/-- What is not listed twice is given by one place only. -/
theorem eq_of_filterMap_nodup {α β : Type} {l : List α} {g : α → Option β}
    (distinct : (l.filterMap g).Nodup) {i j : Nat} {a b : α} {x : β} (one : l[i]? = some a)
    (other : l[j]? = some b) (gives : g a = some x) (gives' : g b = some x) : i = j := by
  have apart := List.pairwise_iff_getElem.mp (List.pairwise_filterMap.mp distinct)
  obtain ⟨inside, rfl⟩ := List.getElem?_eq_some_iff.mp one
  obtain ⟨inside', rfl⟩ := List.getElem?_eq_some_iff.mp other
  rcases Nat.lt_trichotomy i j with before | same | after
  · exact absurd rfl (apart i j inside inside' before x gives x gives')
  · exact same
  · exact absurd rfl (apart j i inside' inside after x gives' x gives)

theorem id_content (f : Fixture) : f.content.id = f.id? := by
  cases f
  rfl

/-- A document into which fixtures are mounted is what is written down.  The fixtures stand
under the root, in preorder from the number 1 on, and they are all there is; so each shows what
is written down at its place in preorder.  If no identifier is written twice, each that can
stand in a selector finds the element for which it is written. -/
theorem mountAll_reproduces (fixtures : List Fixture) :
    let d := mountAll root fixtures empty
    d.Stand root 1 fixtures (d.children root) d.elements.length ∧
      (∀ k f, (preorderAll fixtures)[k]? = some f →
        ∃ element, d.get? ⟨k + 1⟩ = some element ∧ element.content = f.content) ∧
      ((Fixture.allIds fixtures).Nodup → ∀ k f id, (preorderAll fixtures)[k]? = some f →
        f.id? = some id → IsName id → d.query root ("#" ++ id) = some ⟨k + 1⟩) := by
  have stand := (stand_ofFixtures fixtures).1
  have places : ∀ k f, (preorderAll fixtures)[k]? = some f → ∃ element,
      (ofFixtures fixtures).get? ⟨k + 1⟩ = some element ∧ element.content = f.content := by
    intro k f listed
    obtain ⟨p, inner, found, -⟩ := (stand.get?_preorder Nat.one_pos).2 k f listed
    rw [Nat.add_comm] at found
    exact ⟨_, found, rfl⟩
  refine ⟨stand, places, fun distinct k f id listed named name => ?_⟩
  rw [Fixture.allIds_eq_filterMap] at distinct
  obtain ⟨element, found, content⟩ := places k f listed
  have few := (List.getElem?_eq_some_iff.mp listed).1
  refine query_of_only (isForest_ofFixtures fixtures) name (isBelow_root fixtures k few) ?_ ?_
  · rw [found, Option.bind_some, content, id_content, named]
  · intro other below here
    obtain ⟨p, child, -⟩ := Relation.TransGen.head'_iff.mp below
    rcases exists_preorder (contains_of_parent child) with rfl | ⟨j, g, q, inner, rfl, listed', found', -⟩
    · rw [IsChild, (stand_ofFixtures fixtures).2] at child
      cases child
    · rw [found', Option.bind_some, id_content] at here
      rw [eq_of_filterMap_nodup distinct listed' listed here named]

namespace Sample

def card : List Fixture :=
  [.element "FORM" (some "card") [] none none
      [.element "input" (some "name") ["wide", "first", "wide"] none (some "Ann") [],
        .element "div" none ["row"] none none
          [.element "button" (some "go") [] (some "Go >") none []]],
    .element "p" (some "a note") [] none none []]

end Sample

open Document.Sample in
/-- The form is there under its tag in lower case, and the button is found. -/
theorem mountAll_reproduces_card :
    (∃ form, (mountAll root card empty).get? ⟨1⟩ = some form ∧ form.content.tag = "form") ∧
      (Fixture.allIds card).Nodup ∧ IsName "go" ∧
      (mountAll root card empty).query root "#go" = some ⟨4⟩ := by
  obtain ⟨form, found, content⟩ := (mountAll_reproduces card).2.1 0 _ rfl
  have tag : form.content.tag = "form" := by
    rw [content]
    decide +kernel
  have distinct : (Fixture.allIds card).Nodup := by decide +kernel
  have name : IsName "go" := by decide +kernel
  exact ⟨⟨form, found, tag⟩, distinct, name,
    (mountAll_reproduces card).2.2 distinct 3 _ "go" rfl rfl name⟩

end Document

end LiveBinding
