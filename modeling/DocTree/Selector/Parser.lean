import DocTree.Selector.Nesting
import DocTree.Text.Letter

namespace DocTree

namespace Predicate

def unescape : List Char → List Char
  | [] => []
  | ['\\'] => []
  | '\\' :: c :: s => c :: unescape s
  | c :: s => c :: unescape s

def quoted? : List Char → Option (List Char)
  | [] => none
  | q :: s =>
    if Nesting.isQuote q && s.getLast? == some q && !Nesting.escaped (q :: s).dropLast.reverse then
      some s.dropLast
    else none

def unquote (s : List Char) : List Char := unescape ((quoted? s).getD s)

def operatorOf : Option Char → AttributeOperator
  | some '^' => .startsWith
  | some '$' => .endsWith
  | some '*' => .contains
  | some '~' => .containsWord
  | some '|' => .containsPrefix
  | _ => .equals

def ofAttribute (inner : List Char) : Predicate :=
  match inner.dropWhile (· != '=') with
  | [] =>
    let name := Text.trim inner
    if name = [] then .never else .hasAttribute (.ofList name)
  | _ :: value =>
    let before := inner.takeWhile (· != '=')
    let operator := operatorOf before.getLast?
    let name := Text.trim (if operator = .equals then before else before.dropLast)
    if name = [] then .never
    else .attribute (.ofList name) operator (.ofList (unquote (Text.trim value)))

def fixed : List (String × Predicate) :=
  [(":root", .root), (":empty", .empty), (":only-child", .onlyChild),
    (":only-of-type", .onlyOfType), (":first-child", .nthChild .first),
    (":last-child", .nthChild .last), (":first-of-type", .nthOfType .first),
    (":last-of-type", .nthOfType .last)]

/-- The pseudo-classes with an argument: whether they count one type only, and whether from the
end. -/
def counted : List (String × Bool × Bool) :=
  [(":nth-child", false, false), (":nth-last-child", false, true),
    (":nth-of-type", true, false), (":nth-last-of-type", true, true)]

def argument? (s : List Char) : Option (List Char) :=
  match s.dropWhile (· != '(') with
  | [] => none
  | _ :: rest => if rest.getLast? = some ')' then some rest.dropLast else none

def nth? (s : List Char) : Option (Bool × NthPattern) := do
  let argument ← argument? s
  let (ofType, reverse) ← counted.lookup (.ofList (s.takeWhile (· != '(')))
  let (factor, offset) ← NthPattern.parse? argument
  return (ofType, ⟨factor, offset, reverse⟩)

/-- A pseudo-class; `none` for a pattern that selects everywhere. -/
def ofPseudoClass (s : List Char) : Option Predicate :=
  match fixed.lookup (.ofList s) with
  | some p => some p
  | none =>
    match nth? s with
    | none => some .never
    | some (ofType, pattern) =>
      if pattern.matchesAll then none
      else some (if ofType then .nthOfType pattern else .nthChild pattern)

def ofPart : List Char → Option Predicate
  | '.' :: s => some (if s = [] then .never else .className (.ofList s))
  | '#' :: s => some (if s = [] then .never else .id (.ofList s))
  | '[' :: s => some (if s.getLast? = some ']' then ofAttribute s.dropLast else .never)
  | ':' :: s => ofPseudoClass (':' :: s)
  | s => some (.tag (.ofList s))

end Predicate

namespace Selector

def never : Selector := .simple .never

def ofCompound (s : List Char) : Selector :=
  match (splitCompound s).filterMap Predicate.ofPart with
  | [] => .simple (.tag "*")
  | [p] => .simple p
  | parts => .all parts

/-- A text without commas; `none` if it is blank.  A combinator with a blank side never holds. -/
def parse? (s : List Char) : Option Selector :=
  if Text.trim s = [] then none
  else match h : lastCombinator (Text.trim s) with
    | none => some (ofCompound (Text.trim s))
    | some (l, k, r) =>
      have := length_of_lastCombinator h
      have := Text.length_trim_le s
      some (.combined k ((parse? l).getD never) ((parse? r).getD never))
termination_by s.length

end Selector

def SelectorList.parse (text : String) : SelectorList :=
  ⟨(splitTop ',' text.toList).filterMap fun piece => Selector.parse? (Text.lower piece)⟩

end DocTree
