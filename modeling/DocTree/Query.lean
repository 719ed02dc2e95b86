import DocTree.Arena.Walk
import DocTree.Selector.Matching

namespace DocTree

namespace Matcher

def filterBelow (a : Arena) (p : NodeId → Matcher Bool) (fuel : Nat) (xs : List NodeId) :
    Matcher (List NodeId) :=
  Worklist.run (fun x => do
    let holds ← p x
    return (if holds then [x] else [], (← a.get x).children)) fuel xs

def findBelow? (a : Arena) (p : NodeId → Matcher Bool) :
    Nat → List NodeId → Matcher (Option NodeId)
  | _, [] => return none
  | 0, _ :: _ => return none
  | fuel + 1, x :: rest => do
    if ← p x then return some x
    else findBelow? a p fuel ((← a.get x).children ++ rest)

def fresh (m : Matcher α) : Except Error α :=
  match m.run ∅ with
  | .ok result _ => .ok result
  | .error e _ => .error e

end Matcher

namespace Arena

def hasClasses (wanted : List String) (n : Node) : Bool :=
  n.element?.any fun e =>
    let classes := classTokens (e.attributes.text "class")
    wanted.all classes.contains

/-- The descendant elements that have every class of a list of names; no names find nothing. -/
def elementsByClass (a : Arena) (x : NodeId) (names : String) : Except Error (List NodeId) := do
  let wanted := classTokens names
  if wanted.isEmpty then
    let _ ← a.get x
    return []
  else
    let nodes ← (← a.descendants x).mapM a.get
    return (nodes.filter (hasClasses wanted)).map (·.id)

def queryAll (a : Arena) (x : NodeId) (l : SelectorList) : Except Error (List NodeId) :=
  (Matcher.filterBelow a (l.selects a) (a.nextId + 1) [x]).fresh

def query (a : Arena) (x : NodeId) (l : SelectorList) : Except Error (Option NodeId) :=
  (Matcher.findBelow? a (l.selects a) (a.nextId + 1) [x]).fresh

def isSelected (a : Arena) (x : NodeId) (l : SelectorList) : Except Error Bool :=
  (l.selects a x).fresh

end Arena

end DocTree
