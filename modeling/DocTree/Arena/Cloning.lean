import DocTree.Arena.Insertion

namespace DocTree.Edit

def copy (x : NodeId) : Edit NodeId := do
  let n ← (← get).get x
  create n.owner n.data

def copyUnder (p : NodeId × NodeId) : Edit (List NodeId × List (NodeId × NodeId)) := do
  let x ← copy p.1
  let _ ← appendChild p.2 x
  return ([x], (← (← get).childNodes p.1).map (·, x))

def clone (x : NodeId) (deep : Bool) : Edit NodeId := do
  let bound := (← get).nextId
  let top ← copy x
  if deep then
    let _ ← Worklist.run copyUnder bound ((← (← get).childNodes x).map (·, top))
  return top

end DocTree.Edit
