import DocTree.Selector.Nth

namespace DocTree

inductive AttributeOperator
  | equals
  | startsWith
  | endsWith
  | contains
  | containsWord
  | containsPrefix
  deriving DecidableEq, Repr

inductive Predicate
  | tag (name : String)
  | id (text : String)
  | className (name : String)
  | hasAttribute (name : String)
  | attribute (name : String) (operator : AttributeOperator) (value : String)
  | root
  | empty
  | onlyChild
  | onlyOfType
  | nthChild (pattern : NthPattern)
  | nthOfType (pattern : NthPattern)
  /-- Stands for what is not understood. -/
  | never
  deriving DecidableEq, Repr

inductive Combinator
  | descendant
  | child
  | sibling
  deriving DecidableEq, Repr

inductive Selector
  | simple (predicate : Predicate)
  | all (parts : List Predicate)
  /-- The right side holds, and the left side of an element so related to it. -/
  | combined (combinator : Combinator) (left right : Selector)
  deriving DecidableEq, Repr

structure SelectorList where
  groups : List Selector
  deriving DecidableEq, Repr

def Selector.size : Selector → Nat
  | .simple _ => 1
  | .all parts => parts.length + 1
  | .combined _ left right => left.size + right.size + 1

theorem Selector.size_pos : ∀ s : Selector, 0 < s.size
  | .simple _ => Nat.one_pos
  | .all _ => Nat.succ_pos _
  | .combined .. => Nat.succ_pos _

end DocTree
