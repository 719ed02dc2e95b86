import DocTree.Arena.Navigation
import DocTree.Arena.Worklist

namespace DocTree.Arena

def preorder (a : Arena) (x : NodeId) : Except Error (List NodeId) :=
  Worklist.run (fun x => return ([x], (← a.get x).children)) (a.nextId + 1) [x]

def descendants (a : Arena) (x : NodeId) : Except Error (List NodeId) :=
  return (← a.preorder x).filter (· != x)

def traverse (a : Arena) (x : NodeId) (visit : Node → EStateM Error σ Unit) :
    EStateM Error σ Unit := do
  (← a.preorder x).forM fun y => do visit (← a.get y)

def isSame (x y : NodeId) : Bool := x == y

def compare (a : Arena) (p : NodeId × NodeId) :
    Except Error (List Bool × List (NodeId × NodeId)) := do
  let m ← a.get p.1
  if p.1 = p.2 then return ([], [])
  else
    let n ← a.get p.2
    if m.data.agrees n.data && m.children.length == n.children.length then
      return ([true], m.children.zip n.children)
    else return ([false], [])

def isEqual (a : Arena) (x y : NodeId) : Except Error Bool :=
  return (← Worklist.run a.compare (a.nextId + 1) [(x, y)]).all id

end DocTree.Arena
