import DocTree.Arena.Navigation
import DocTree.Selector.Parser
import DocTree.Selector.Listing
import Std.Data.TreeMap

/-! Which elements a selector selects.  Results are kept by element and number of the predicate
node, so that no predicate is evaluated twice on one element. -/

namespace DocTree

def Text.occursIn (part : List Char) : List Char → Bool
  | [] => part.isEmpty
  | c :: s => part.isPrefixOf (c :: s) || occursIn part s

def AttributeOperator.holds (o : AttributeOperator) (actual value : List Char) : Bool :=
  match o with
  | .equals => actual == value
  | .startsWith => !value.isEmpty && value.isPrefixOf actual
  | .endsWith => !value.isEmpty && value.isSuffixOf actual
  | .contains => !value.isEmpty && Text.occursIn value actual
  | .containsWord => (Text.words actual).any (· == value)
  | .containsPrefix =>
    (Text.words actual).any fun w => w == value || (value ++ ['-']).isPrefixOf w

namespace Arena

def ofType (a : Arena) (name : String) : List NodeId → Except Error (List NodeId)
  | [] => return []
  | x :: xs => do
    let n ← a.localName x
    let rest ← a.ofType name xs
    return if Text.sameIgnoringCase n name then x :: rest else rest

def siblingsOfType (a : Arena) (x : NodeId) (name : String) : Except Error (List NodeId) := do
  a.ofType name (← a.siblingElements x)

end Arena

def Predicate.holds (a : Arena) (x : NodeId) (e : Element) : Predicate → Except Error Bool
  | .tag name => return name == "*" || (name != "" && Text.sameIgnoringCase e.name name)
  | .id text => return Text.sameIgnoringCase (e.attributes.text "id") text
  | .className name => return (classTokens (e.attributes.text "class")).contains name
  | .hasAttribute name => return (e.attributes.getIgnoringCase? name).isSome
  | .attribute name operator value =>
    return (e.attributes.getIgnoringCase? name).any fun v => operator.holds v.print value.toList
  | .root => do
    match ← a.parent x with
    | none => return true
    | some p => return (← a.get p).isDocument
  | .empty => return (← a.childElementCount x) == 0
  | .onlyChild => do
    return (← a.previousElementSibling x).isNone && (← a.nextElementSibling x).isNone
  | .onlyOfType => return (← a.siblingsOfType x e.name).length == 1
  | .nthChild pattern => return pattern.selects (← a.siblingElements x) x
  | .nthOfType pattern => return pattern.selects (← a.siblingsOfType x e.name) x
  | .never => return false

/-- Known results by element and predicate number. -/
abbrev Memo :=
  Std.TreeMap (NodeId × Nat) Bool (compareLex (compareOn Prod.fst) (compareOn Prod.snd))

theorem Memo.getElem?_insert (m : Memo) (k : NodeId × Nat) (b : Bool) (j : NodeId × Nat) :
    (m.insert k b)[j]? = if k = j then some b else m[j]? := by
  simp [Std.TreeMap.getElem?_insert, compareOn, Prod.ext_iff]

/-- Asks an arena with a memo; the memo outlives a failure. -/
abbrev Matcher (α : Type) := EStateM Error Memo α

namespace Matcher

def remember (x : NodeId) (number : Nat) (compute : Matcher Bool) : Matcher Bool := do
  match (← get)[(x, number)]? with
  | some known => return known
  | none =>
    let result ← compute
    modify (·.insert (x, number) result)
    return result

def any (p : NodeId → Matcher Bool) : List NodeId → Matcher Bool
  | [] => return false
  | x :: xs => do if ← p x then return true else any p xs

/-- Some node that `next` leads to from `x` satisfies `p`, asked in order up to the first that does;
at most `fuel` steps are taken. -/
def anyAlong (next : NodeId → Except Error (Option NodeId)) (p : NodeId → Matcher Bool) :
    Nat → NodeId → Matcher Bool
  | 0, _ => return false
  | fuel + 1, x => do
    match ← next x with
    | none => return false
    | some y => if ← p y then return true else anyAlong next p fuel y

def onElement (a : Arena) (x : NodeId) (p : Element → Matcher Bool) : Matcher Bool := do
  match (← a.get x).element? with
  | some e => p e
  | none => return false

theorem anyAlong_eq_any {next : NodeId → Except Error (Option NodeId)}
    (p : NodeId → Matcher Bool) {fuel : Nat} {x : NodeId} {ys : List NodeId}
    (h : Arena.climb next fuel x = .ok ys) : anyAlong next p fuel x = any p ys := by
  induction fuel generalizing x ys with
  | zero =>
    obtain rfl : [] = ys := by simpa [Arena.climb, pure, Except.pure] using h
    rfl
  | succ fuel ih =>
    simp only [Arena.climb] at h
    simp only [anyAlong]
    cases hn : next x with
    | error e => simp [hn, bind, Except.bind] at h
    | ok y =>
      cases y with
      | none =>
        obtain rfl : [] = ys := by simpa [hn, bind, Except.bind, pure, Except.pure] using h
        rfl
      | some y =>
        cases hc : Arena.climb next fuel y with
        | error e => simp [hn, hc, bind, Except.bind] at h
        | ok zs =>
          obtain rfl : y :: zs = ys := by
            simpa [hn, hc, bind, Except.bind, pure, Except.pure] using h
          simp [ih hc, any]

end Matcher

open Matcher in
def Predicate.allHold (a : Arena) (x : NodeId) : List Predicate → Nat → Matcher Bool
  | [], _ => return true
  | p :: ps, first => do
    if ← remember x first (onElement a x fun e => p.holds a x e) then allHold a x ps (first + 1)
    else return false

open Matcher in
def Selector.selects (a : Arena) : Selector → Nat → NodeId → Matcher Bool
  | .simple p, first, x => remember x first (onElement a x fun e => p.holds a x e)
  | .all parts, first, x =>
    remember x (first + parts.length) <| onElement a x fun _ =>
      if parts.isEmpty then return false else Predicate.allHold a x parts first
  | .combined c left right, first, x =>
    let onLeft := left.selects a first
    let onRight := right.selects a (first + left.size)
    remember x (first + left.size + right.size) <| onElement a x fun _ => do
      match c with
      | .descendant =>
        if ← onRight x then anyAlong a.parentElement onLeft (a.nextId + 1) x else return false
      | .child =>
        match ← a.parentElement x with
        | some p => if ← onLeft p then onRight x else return false
        | none => return false
      | .sibling =>
        if ← onRight x then any onLeft (← a.earlierElements x) else return false

namespace SelectorList

open Matcher

def someSelects (a : Arena) (x : NodeId) : List Selector → Nat → Matcher Bool
  | [], _ => return false
  | s :: rest, first => do
    if ← s.selects a first x then return true else someSelects a x rest (first + s.size)

def selects (a : Arena) (l : SelectorList) (x : NodeId) : Matcher Bool :=
  remember x l.root <| onElement a x fun _ => someSelects a x l.groups 0

end SelectorList

end DocTree
