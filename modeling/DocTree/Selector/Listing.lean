import DocTree.Selector.Basic

/-! Selectors as numbered rows.  The parts of a node are numbered before the node, from left to
right; a row refers to its parts by number, and the last row lists the groups. -/

namespace DocTree

inductive SelectorRow
  | simple (predicate : Predicate)
  | all (parts : List Nat)
  | any (groups : List Nat)
  | combined (combinator : Combinator) (left right : Nat)
  deriving DecidableEq, Repr

/-- The number of a selector whose rows start at `first`. -/
def Selector.number (s : Selector) (first : Nat) : Nat := first + s.size - 1

def Selector.rows : Selector → Nat → List SelectorRow
  | .simple p, _ => [.simple p]
  | .all parts, first =>
    parts.map .simple ++ [.all (List.range' first parts.length)]
  | .combined c left right, first =>
    left.rows first ++ right.rows (first + left.size)
      ++ [.combined c (left.number first) (right.number (first + left.size))]

@[simp] theorem Selector.length_rows (s : Selector) (first : Nat) :
    (s.rows first).length = s.size := by
  induction s generalizing first with
  | simple p => rfl
  | all parts => simp [rows, size]
  | combined c left right ihl ihr => simp [rows, size, ihl, ihr, Nat.add_assoc]

namespace SelectorList

def groupRows : List Selector → Nat → List SelectorRow
  | [], _ => []
  | s :: rest, first => s.rows first ++ groupRows rest (first + s.size)

def groupNumbers : List Selector → Nat → List Nat
  | [], _ => []
  | s :: rest, first => s.number first :: groupNumbers rest (first + s.size)

def groupSize : List Selector → Nat
  | [] => 0
  | s :: rest => s.size + groupSize rest

def root (l : SelectorList) : Nat := groupSize l.groups

def numbers (l : SelectorList) : List Nat := groupNumbers l.groups 0

def rows (l : SelectorList) : List SelectorRow :=
  groupRows l.groups 0 ++ [.any l.numbers]

theorem length_groupRows (groups : List Selector) (first : Nat) :
    (groupRows groups first).length = groupSize groups := by
  induction groups generalizing first with
  | nil => rfl
  | cons s rest ih => simp [groupRows, groupSize, ih]

@[simp] theorem length_rows (l : SelectorList) : l.rows.length = l.root + 1 := by
  simp [rows, root, length_groupRows]

end SelectorList

end DocTree
