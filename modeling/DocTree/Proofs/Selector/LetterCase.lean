import DocTree.Proofs.Arena.Lowered
import DocTree.Proofs.Selector.Queries

namespace DocTree

open Arena

variable {a b : Arena} {x r : NodeId} {n : Node} {s t : String}

namespace Nesting

variable {k : Nesting} {c separator : Char}

theorem escaped_lower (left : List Char) : escaped (Text.lower left) = escaped left := by
  have hback : ((· == '\\') ∘ Char.toLower) = (· == '\\') :=
    funext fun c => Text.toLower_beq (by decide) c
  simp [escaped, Text.lower, List.takeWhile_map, hback]

def NoLetter (k : Nesting) : Prop := ∀ q, k.quote = some q → q.isAlpha = false

theorem isAlpha_of_isQuote (hc : isQuote c = true) : c.isAlpha = false := by
  rw [isQuote, Bool.or_eq_true, beq_iff_eq, beq_iff_eq] at hc
  rcases hc with rfl | rfl <;> decide

theorem NoLetter.feed (hk : k.NoLetter) (d : Direction) (left : List Char) (c : Char) :
    (k.feed d left c).NoLetter := by
  rw [Nesting.feed]
  split
  · split
    · nofun
    · exact hk
  · rw [feedPlain]
    split
    next hopen =>
      rintro q ⟨⟩
      rw [Bool.and_eq_true, Bool.and_eq_true] at hopen
      exact isAlpha_of_isQuote hopen.1.1
    next => split_ifs <;> exact hk

theorem isAlpha_delimiters (d : Direction) :
    d.openBracket.isAlpha = false ∧ d.closeBracket.isAlpha = false ∧
      d.openParen.isAlpha = false ∧ d.closeParen.isAlpha = false := by
  cases d <;> decide

theorem feedPlain_toLower (k : Nesting) (d : Direction) (left : List Char) (c : Char) :
    k.feedPlain d (Text.lower left) c.toLower = k.feedPlain d left c := by
  cases hc : isQuote c with
  | true =>
    rw [(Text.toLower_eq_iff (isAlpha_of_isQuote hc)).2 rfl, feedPlain, feedPlain, escaped_lower]
  | false =>
    have hsmall : isQuote c.toLower = false := by
      rw [← hc]
      simp (disch := decide) only [isQuote, Text.toLower_beq]
    obtain ⟨hopenBracket, hcloseBracket, hopenParen, hcloseParen⟩ := isAlpha_delimiters d
    rw [feedPlain, feedPlain, hsmall, hc, Text.toLower_beq hopenBracket,
      Text.toLower_beq hcloseBracket, Text.toLower_beq hopenParen, Text.toLower_beq hcloseParen]
    rfl

theorem feed_toLower (hk : k.NoLetter) (d : Direction) (left : List Char) (c : Char) :
    k.feed d (Text.lower left) c.toLower = k.feed d left c := by
  rw [feed, feed]
  split
  next q hq => rw [Text.toLower_beq (hk q hq), escaped_lower]
  next => exact k.feedPlain_toLower d left c

theorem pieces_lower (hseparator : separator.isAlpha = false) (hk : k.NoLetter)
    (left s : List Char) : pieces separator k (Text.lower left) (Text.lower s) =
      (pieces separator k left s).map Text.lower := by
  induction s generalizing k left with
  | nil => rfl
  | cons c s ih =>
    have hrest := ih (hk.feed .forward left c) (c :: left)
    rw [Text.lower_cons] at hrest
    rw [Text.lower_cons, pieces, pieces, feed_toLower hk, hrest, Text.toLower_beq hseparator]
    split
    · rfl
    · cases pieces separator (k.feed .forward left c) (c :: left) s <;> rfl

end Nesting

theorem splitTop_lower {separator : Char} (hseparator : separator.isAlpha = false)
    (s : List Char) : splitTop separator (Text.lower s) =
      (splitTop separator s).map Text.lower :=
  Nesting.pieces_lower hseparator (k := .top) nofun [] s

theorem SelectorList.parse_congr (h : Text.sameIgnoringCase s t = true) : parse s = parse t := by
  have hparse : ∀ u : String, parse u =
      ⟨(splitTop ',' (Text.lower u.toList)).filterMap Selector.parse?⟩ := by
    intro u
    rw [splitTop_lower (by decide), List.filterMap_map]
    rfl
  rw [hparse, hparse, Text.sameIgnoringCase_iff.1 h]

def Predicate.comparesValue : Predicate → Bool
  | .attribute .. => true
  | _ => false

def Selector.comparesValue : Selector → Bool
  | .simple p => p.comparesValue
  | .all parts => parts.any (·.comparesValue)
  | .combined _ left right => left.comparesValue || right.comparesValue

def SelectorList.comparesValue (l : SelectorList) : Bool := l.groups.any (·.comparesValue)

theorem Predicate.means_lowered {p : Predicate} (hp : p.comparesValue = false) :
    p.Means a.lowered x ↔ p.Means a x := by
  cases p with
  | tag name => simp [Means]
  | id text =>
    refine exists_elementAt_lowered fun e => ?_
    rw [Element.lowered, Text.sameIgnoringCase_congr (e.attributes.lower_text_lowered "id")]
  | className name =>
    refine exists_elementAt_lowered fun e => ?_
    rw [Element.lowered, classTokens_congr (e.attributes.lower_text_lowered "class")]
  | hasAttribute name =>
    simp only [Means, exists_and_left, ← Option.isSome_iff_exists]
    refine exists_elementAt_lowered fun e => ?_
    rw [Element.lowered, e.attributes.isSome_getIgnoringCase?_lowered]
  | «attribute» => cases hp
  | root =>
    constructor
    · intro hdoc p m hxp hm
      have hm' := hdoc p m.lowered (hasParent_lowered.2 hxp) (find?_mapNodes_of_live hm)
      rwa [Node.isDocument_lowered] at hm'
    · intro hdoc p k hxp hk
      obtain ⟨m, hm, rfl⟩ := find?_mapNodes_eq_some hk
      rw [Node.isDocument_lowered]
      exact hdoc p m (hasParent_lowered.1 hxp) hm
  | empty => simp [Means]
  | onlyChild => simp [Means]
  | onlyOfType =>
    simp only [Means, exists_and_left, among_lowered, isNamed_lowered]
    refine exists_elementAt_lowered fun e => ?_
    rw [Element.lowered, isNamed_lowerString]
  | nthChild pattern => simp [Means]
  | nthOfType pattern =>
    simp only [Means, exists_and_left, among_lowered, isNamed_lowered]
    refine exists_elementAt_lowered fun e => ?_
    rw [Element.lowered, isNamed_lowerString]
  | never => rfl

theorem Selector.means_lowered {s : Selector} (hs : s.comparesValue = false) :
    s.Means a.lowered x ↔ s.Means a x := by
  induction s generalizing x with
  | simple p => exact Predicate.means_lowered hs
  | all parts =>
    rw [comparesValue, List.any_eq_false] at hs
    refine and_congr_right fun _ => forall₂_congr fun p hp => ?_
    exact Predicate.means_lowered (Bool.eq_false_iff.2 (hs p hp))
  | combined c left right ihl ihr =>
    obtain ⟨hleft, hright⟩ := Bool.or_eq_false_iff.1 hs
    cases c <;> simp [Means, ihl hleft, ihr hright]

theorem SelectorList.selected_lowered {l : SelectorList} (hl : l.comparesValue = false) :
    l.Selected a.lowered x ↔ l.Selected a x := by
  rw [comparesValue, List.any_eq_false] at hl
  rw [Selected, Selected, isElementAt_lowered]
  refine and_congr_right fun _ => exists_congr fun s => and_congr_right fun hs => ?_
  exact Selector.means_lowered (Bool.eq_false_iff.2 (hl s hs))

namespace Arena

theorem WellFormed.queryAll_lowered (h : a.WellFormed) {l : SelectorList}
    (hl : l.comparesValue = false) (hr : a.find? r = some n) :
    a.lowered.queryAll r l = a.queryAll r l := by
  classical
  have hselected : l.Selected a.lowered = l.Selected a :=
    funext fun y => propext (SelectorList.selected_lowered hl)
  rw [h.queryAll_eq l hr, h.lowered.queryAll_eq l (find?_mapNodes_of_live hr), h.subtree_lowered hr]
  simp only [hselected]

/-- Two selector texts that differ in letter case only find the same nodes, though in arenas that
differ in it as well. -/
theorem Reachable.queryAll_ignoring_case (ha : a.Reachable) (hb : b.Reachable)
    (hab : a.lowered = b.lowered) (hst : Text.sameIgnoringCase s t = true)
    (hvalues : (SelectorList.parse s).comparesValue = false) (hr : a.find? r = some n) :
    ∃ found, a.queryAll r (.parse s) = .ok found ∧ b.queryAll r (.parse t) = .ok found := by
  classical
  have h := ha.wellFormed
  have hfound := h.queryAll_eq (.parse s) hr
  obtain ⟨m, hm, -⟩ : ∃ m, b.find? r = some m ∧ m.lowered = n.lowered := by
    have hlive := find?_lowered b r
    rwa [← hab, find?_lowered, hr, Option.map_some, eq_comm, Option.map_eq_some_iff] at hlive
  refine ⟨_, hfound, ?_⟩
  rw [← SelectorList.parse_congr hst, ← hb.wellFormed.queryAll_lowered hvalues hm, ← hab,
    h.queryAll_lowered hvalues hr, hfound]

theorem queryAll_ignoring_case_mixed : ∃ (a b : Arena) (n : Node) (s t : String),
    a.Reachable ∧ b.Reachable ∧ a ≠ b ∧ a.lowered = b.lowered ∧
    s = "UL > .big#ONE:Nth-Child(Odd), [ID]:Hover" ∧
    t = "ul > .BIG#one:nth-CHILD(oDD), [id]:hover" ∧
    Text.sameIgnoringCase s t = true ∧ (SelectorList.parse s).comparesValue = false ∧
    a.find? 0 = some n ∧ a.queryAll 0 (.parse s) = .ok [2] ∧
    ∃ found, a.queryAll 0 (.parse s) = .ok found ∧ b.queryAll 0 (.parse t) = .ok found := by
  have ha : (Operation.run [.createDocument, .createElement 0 "Ul", .createElement 0 "li",
      .setAttribute 2 "id" (.string "one"), .setAttribute 2 "class" (.string "Big"),
      .append 1 [2], .append 0 [1]] .empty).Reachable := ⟨⟨_, rfl⟩, by decide⟩
  have hb : (Operation.run [.createDocument, .createElement 0 "uL", .createElement 0 "LI",
      .setAttribute 2 "id" (.string "oNE"), .setAttribute 2 "class" (.string "biG"),
      .append 1 [2], .append 0 [1]] .empty).Reachable := ⟨⟨_, rfl⟩, by decide⟩
  have hab := ha.queryAll_ignoring_case hb (by decide +kernel)
    (s := "UL > .big#ONE:Nth-Child(Odd), [ID]:Hover")
    (t := "ul > .BIG#one:nth-CHILD(oDD), [id]:hover") (by decide +kernel) (by decide +kernel)
    (r := 0) rfl
  exact ⟨_, _, _, _, _, ha, hb, by decide +kernel, by decide +kernel, rfl, rfl, by decide +kernel,
    by decide +kernel, rfl, by decide +kernel, hab⟩

end Arena

end DocTree
