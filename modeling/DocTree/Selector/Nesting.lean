import DocTree.Selector.Basic
import DocTree.Text.Blank

/-! Scans of a selector text that respect brackets, parentheses and quotes.  Commas and the starts
of compound parts are found from left to right, the last combinator from right to left; every scan
carries the text to the left of its place, nearest character first. -/

namespace DocTree

inductive Direction
  | forward
  | backward
  deriving DecidableEq, Repr

namespace Direction

def openBracket : Direction → Char
  | forward => '['
  | backward => ']'

def closeBracket : Direction → Char
  | forward => ']'
  | backward => '['

def openParen : Direction → Char
  | forward => '('
  | backward => ')'

def closeParen : Direction → Char
  | forward => ')'
  | backward => '('

end Direction

structure Nesting where
  brackets : Nat
  parens : Nat
  quote : Option Char
  deriving DecidableEq, Repr

namespace Nesting

def top : Nesting := ⟨0, 0, none⟩

def isTop (n : Nesting) : Bool := n.brackets == 0 && n.parens == 0 && n.quote.isNone

/-- An odd number of backslashes ends the text on the left. -/
def escaped (left : List Char) : Bool := (left.takeWhile (· == '\\')).length % 2 == 1

def isQuote (c : Char) : Bool := c == '"' || c == '\''

/-- Outside quotes: a quote opens inside brackets only, and a closing delimiter without an opening
one is passed over. -/
def feedPlain (n : Nesting) (d : Direction) (left : List Char) (c : Char) : Nesting :=
  if isQuote c && 0 < n.brackets && !escaped left then { n with quote := some c }
  else if c == d.openBracket then { n with brackets := n.brackets + 1 }
  else if c == d.closeBracket then { n with brackets := n.brackets - 1 }
  else if c == d.openParen then { n with parens := n.parens + 1 }
  else if c == d.closeParen then { n with parens := n.parens - 1 }
  else n

def feed (n : Nesting) (d : Direction) (left : List Char) (c : Char) : Nesting :=
  match n.quote with
  | some q => if c == q && !escaped left then { n with quote := none } else n
  | none => n.feedPlain d left c

def pieces (separator : Char) : Nesting → List Char → List Char → List (List Char)
  | _, _, [] => [[]]
  | n, left, c :: s =>
    let rest := pieces separator (n.feed .forward left c) (c :: left) s
    if c == separator && n.isTop then [] :: rest else rest.modifyHead (c :: ·)

def startsPart (c : Char) : Bool := c == '.' || c == '#' || c == '[' || c == ':'

def partsFrom : Nesting → List Char → List Char → List Char × List (List Char)
  | _, _, [] => ([], [])
  | n, left, c :: s =>
    let (now, later) := partsFrom (n.feed .forward left c) (c :: left) s
    if n.isTop && startsPart c then ([], (c :: now) :: later) else (c :: now, later)

/-- The combinator that `c` stands for right of `left`; a blank beside `>` or `~` is none. -/
def combinatorAt (left : List Char) (c : Char) : Option Combinator :=
  if c == '>' then some .child
  else if c == '~' then some .sibling
  else if Text.isAsciiBlank c then
    match left.dropWhile Text.isAsciiBlank with
    | '>' :: _ | '~' :: _ => none
    | _ => some .descendant
  else none

/-- The first combinator at top level of a text given from its end; `right` is the text already
passed. -/
def combinatorFrom : Nesting → List Char → List Char → Option (List Char × Combinator × List Char)
  | _, [], _ => none
  | n, c :: left, right =>
    match if n.isTop then combinatorAt left c else none with
    | some k => some (left.reverse, k, right)
    | none => combinatorFrom (n.feed .backward left c) left (c :: right)

end Nesting

def splitTop (separator : Char) (s : List Char) : List (List Char) :=
  Nesting.pieces separator .top [] s

def splitCompound : List Char → List (List Char)
  | [] => []
  | c :: s =>
    let (now, later) := Nesting.partsFrom (Nesting.top.feed .forward [] c) [c] s
    (c :: now) :: later

def lastCombinator (s : List Char) : Option (List Char × Combinator × List Char) :=
  Nesting.combinatorFrom .top s.reverse []

theorem Nesting.combinatorFrom_eq_some {n : Nesting} {rev right l r : List Char} {k : Combinator}
    (h : combinatorFrom n rev right = some (l, k, r)) :
    ∃ c, l ++ c :: r = rev.reverse ++ right := by
  induction rev generalizing n right with
  | nil => simp [combinatorFrom] at h
  | cons c left ih =>
    simp only [combinatorFrom] at h
    split at h
    · obtain ⟨rfl, -, rfl⟩ : left.reverse = l ∧ _ = k ∧ right = r := by simpa using h
      exact ⟨c, by simp⟩
    · obtain ⟨d, hd⟩ := ih h
      exact ⟨d, by simp [hd]⟩

theorem lastCombinator_eq_some {s l r : List Char} {k : Combinator}
    (h : lastCombinator s = some (l, k, r)) : ∃ c, s = l ++ c :: r := by
  obtain ⟨c, hc⟩ := Nesting.combinatorFrom_eq_some h
  exact ⟨c, by simpa using hc.symm⟩

theorem length_of_lastCombinator {s l r : List Char} {k : Combinator}
    (h : lastCombinator s = some (l, k, r)) : l.length + r.length + 1 = s.length := by
  obtain ⟨c, rfl⟩ := lastCombinator_eq_some h
  simp; omega

end DocTree
