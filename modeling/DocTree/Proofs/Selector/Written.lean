import DocTree.Proofs.Text.Name
import DocTree.Selector.Parser

namespace DocTree.Written

abbrev Name := { s : List Char // Text.IsName s }

abbrev Blank := { c : Char // Text.isAsciiBlank c = true }

abbrev Factor := { n : Int // Integer.InRange n }

inductive Quote
  | double
  | single
  deriving DecidableEq

def Quote.char : Quote → Char
  | .double => '"'
  | .single => '\''

inductive Pseudo
  | root
  | empty
  | onlyChild
  | onlyOfType
  | firstChild
  | lastChild
  | firstOfType
  | lastOfType
  deriving DecidableEq

inductive Part
  | id (name : Name)
  | className (name : Name)
  | hasAttribute (name : Name)
  | attribute (name : Name) (operator : AttributeOperator) (quote : Quote) (value : List Char)
  | pseudo (p : Pseudo)
  | nth (ofType reverse : Bool) (factor offset : Factor)

inductive Tag
  | any
  | name (name : Name)

inductive Compound
  | tagged (tag : Tag) (parts : List Part)
  | untagged (first : Part) (rest : List Part)

inductive Joint
  | descendant (first : Blank) (rest : List Blank)
  | child (before after : List Blank)
  | sibling (before after : List Blank)

inductive Chain
  | compound (c : Compound)
  | join (left : Chain) (joint : Joint) (right : Compound)

structure Group where
  before : List Blank
  chain : Chain
  after : List Blank

def escape (quote : Char) : List Char → List Char
  | [] => []
  | c :: s => if c = '\\' ∨ c = quote then '\\' :: c :: escape quote s else c :: escape quote s

def sign : AttributeOperator → List Char
  | .equals => ['=']
  | .startsWith => ['^', '=']
  | .endsWith => ['$', '=']
  | .contains => ['*', '=']
  | .containsWord => ['~', '=']
  | .containsPrefix => ['|', '=']

def Pseudo.print : Pseudo → List Char
  | .root => ":root".toList
  | .empty => ":empty".toList
  | .onlyChild => ":only-child".toList
  | .onlyOfType => ":only-of-type".toList
  | .firstChild => ":first-child".toList
  | .lastChild => ":last-child".toList
  | .firstOfType => ":first-of-type".toList
  | .lastOfType => ":last-of-type".toList

def nthName (ofType reverse : Bool) : List Char :=
  ":nth-".toList ++ (if reverse then "last-".toList else []) ++
    (if ofType then "of-type".toList else "child".toList)

def nthArgument (factor offset : Int) : List Char :=
  Integer.print factor ++ 'n' :: (if offset < 0 then '-' else '+') ::
    Integer.digits offset.natAbs

def Part.print : Part → List Char
  | .id name => '#' :: name
  | .className name => '.' :: name
  | .hasAttribute name => '[' :: (name ++ [']'])
  | .attribute name operator quote value =>
    '[' :: (name ++ sign operator ++ quote.char :: escape quote.char value ++ [quote.char, ']'])
  | .pseudo p => p.print
  | .nth ofType reverse factor offset =>
    nthName ofType reverse ++ '(' :: (nthArgument factor offset ++ [')'])

def Tag.print : Tag → List Char
  | .any => ['*']
  | .name n => n

def Compound.print : Compound → List Char
  | .tagged tag parts => tag.print ++ parts.flatMap (·.print)
  | .untagged first rest => first.print ++ rest.flatMap (·.print)

def blanks (s : List Blank) : List Char := s.map (·.val)

def Joint.print : Joint → List Char
  | .descendant first rest => first :: blanks rest
  | .child before after => blanks before ++ '>' :: blanks after
  | .sibling before after => blanks before ++ '~' :: blanks after

def Chain.print : Chain → List Char
  | .compound c => c.print
  | .join left joint right => left.print ++ joint.print ++ right.print

def Group.print (g : Group) : List Char := blanks g.before ++ g.chain.print ++ blanks g.after

def print (groups : List Group) : List Char := [','].intercalate (groups.map (·.print))

def Name.lower (name : Name) : Name := ⟨Text.lower name, name.2.lower⟩

def Part.lower : Part → Part
  | .id name => .id (Name.lower name)
  | .className name => .className (Name.lower name)
  | .hasAttribute name => .hasAttribute (Name.lower name)
  | .attribute name operator quote value =>
    .attribute (Name.lower name) operator quote (Text.lower value)
  | .pseudo p => .pseudo p
  | .nth ofType reverse factor offset => .nth ofType reverse factor offset

def Tag.lower : Tag → Tag
  | .any => .any
  | .name n => .name (Name.lower n)

def Compound.lower : Compound → Compound
  | .tagged tag parts => .tagged tag.lower (parts.map Part.lower)
  | .untagged first rest => .untagged first.lower (rest.map Part.lower)

def Chain.lower : Chain → Chain
  | .compound c => .compound c.lower
  | .join left joint right => .join left.lower joint right.lower

def Group.lower (g : Group) : Group := { g with chain := g.chain.lower }

def Pseudo.predicate : Pseudo → Predicate
  | .root => .root
  | .empty => .empty
  | .onlyChild => .onlyChild
  | .onlyOfType => .onlyOfType
  | .firstChild => .nthChild ⟨0, 1, false⟩
  | .lastChild => .nthChild ⟨0, 1, true⟩
  | .firstOfType => .nthOfType ⟨0, 1, false⟩
  | .lastOfType => .nthOfType ⟨0, 1, true⟩

/-- A part that every element satisfies, `1n+0`, adds no predicate. -/
def Part.predicate? : Part → Option Predicate
  | .id name => some (.id (.ofList name))
  | .className name => some (.className (.ofList name))
  | .hasAttribute name => some (.hasAttribute (.ofList name))
  | .attribute name operator _ value =>
    some (.attribute (.ofList name) operator (.ofList value))
  | .pseudo p => some p.predicate
  | .nth ofType reverse factor offset =>
    if factor.val = 1 ∧ offset.val = 0 then none
    else if ofType then some (.nthOfType ⟨factor, offset, reverse⟩)
    else some (.nthChild ⟨factor, offset, reverse⟩)

def Tag.predicate : Tag → Predicate
  | .any => .tag "*"
  | .name n => .tag (.ofList n)

def Compound.predicates : Compound → List Predicate
  | .tagged tag parts => tag.predicate :: parts.filterMap (·.predicate?)
  | .untagged first rest => (first :: rest).filterMap (·.predicate?)

def Compound.selector (c : Compound) : Selector :=
  match c.predicates with
  | [] => .simple (.tag "*")
  | [p] => .simple p
  | ps => .all ps

def Joint.combinator : Joint → Combinator
  | .descendant _ _ => .descendant
  | .child _ _ => .child
  | .sibling _ _ => .sibling

def Chain.selector : Chain → Selector
  | .compound c => c.selector
  | .join left joint right => .combined joint.combinator left.selector right.selector

def Group.selector (g : Group) : Selector := g.chain.selector

end DocTree.Written
