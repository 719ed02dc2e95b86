import DocTree.Arena.Edit

/-! Moving nodes: insertion, replacement and removal of children.  Everything is checked before
anything is changed. -/

namespace DocTree

namespace Arena

def checkParent (a : Arena) (parent node : NodeId) : Except Error Unit := do
  if (← a.get parent).isComment then throw .parentIsComment
  if (← a.get node).isDocument then throw .insertsDocument
  if node == parent || (← a.contains node parent) then throw .insertsAncestor

def checkChild (a : Arena) (parent child : NodeId) : Except Error Unit := do
  if (← a.get child).parent ≠ some parent then throw (.notChild child parent)

def isDocumentElement (a : Arena) (parent node : NodeId) : Except Error Bool := do
  return (← a.get parent).isDocument && (← a.get node).isElement

def checkInsertion (a : Arena) (parent node : NodeId) (child : Option NodeId) :
    Except Error Unit := do
  a.checkParent parent node
  if let some child := child then a.checkChild parent child
  if ← a.isDocumentElement parent node then
    if (← a.childElementCount parent) ≠ 0 then throw .secondElement

def checkReplacement (a : Arena) (parent node child : NodeId) : Except Error Unit := do
  a.checkParent parent node
  a.checkChild parent child
  if ← a.isDocumentElement parent node then
    if let some e ← a.firstChildElement parent then
      if e ≠ child then throw .secondElement

def checkAll (a : Arena) (parent : NodeId) (nodes : List NodeId) (replacing : Bool) :
    Except Error Unit := do
  nodes.forM fun node =>
    if replacing then a.checkParent parent node else a.checkInsertion parent node none
  if (← a.get parent).isDocument then
    if 1 < (← a.elementsOf nodes).length then throw .manyElements

end Arena

namespace Edit

def insertInto (x : NodeId) (reference : Option NodeId) : List NodeId → List NodeId
  | [] => [x]
  | y :: ys => if reference = some y then x :: y :: ys else y :: insertInto x reference ys

def detach (x : NodeId) : Edit Unit := do
  match (← (← get).get x).parent with
  | none => return ()
  | some p =>
    update p fun n => { n with children := n.children.filter (· != x) }
    update x ({ · with parent := none })

def adoptInto (parent node : NodeId) : Edit Unit := do
  match (← (← get).get parent).document with
  | none => throw (.noDocument parent)
  | some d => setOwner node d

def insertBefore (parent node : NodeId) (child : Option NodeId) : Edit NodeId := do
  (← get).checkInsertion parent node child
  let reference ← if child = some node then (← get).nextSibling node else pure child
  detach node
  adoptInto parent node
  update parent fun n => { n with children := insertInto node reference n.children }
  update node ({ · with parent := some parent })
  return node

def appendChild (parent node : NodeId) : Edit NodeId := insertBefore parent node none

def replaceChild (parent node child : NodeId) : Edit NodeId := do
  (← get).checkReplacement parent node child
  if node = child then return node
  detach node
  adoptInto parent node
  if child ∈ (← (← get).get parent).children then
    update parent fun n => { n with children := n.children.replace child node }
  else throw (.notChild child parent)
  update node ({ · with parent := some parent })
  update child ({ · with parent := none })
  return node

def removeChild (parent child : NodeId) : Edit NodeId := do
  let _ ← (← get).get parent
  (← get).checkChild parent child
  detach child
  return child

/-- Inserts the nodes, in order, before the first child, as long as that stays a child. -/
def prepend (parent : NodeId) (nodes : List NodeId) : Edit Unit := do
  (← get).checkAll parent nodes false
  let first ← (← get).firstChild parent
  nodes.forM fun node => do
    match first with
    | none => let _ ← appendChild parent node
    | some f =>
      if (← (← get).get f).parent = some parent then
        let _ ← insertBefore parent node (some f)
      else
        let _ ← appendChild parent node

def append (parent : NodeId) (nodes : List NodeId) : Edit Unit := do
  (← get).checkAll parent nodes false
  nodes.forM fun node => do let _ ← appendChild parent node

def replaceChildren (parent : NodeId) (nodes : List NodeId) : Edit Unit := do
  (← get).checkAll parent nodes true
  let old ← (← get).childNodes parent
  update parent ({ · with children := [] })
  old.forM fun x => update x ({ · with parent := none })
  nodes.forM fun node => do let _ ← appendChild parent node

end Edit

end DocTree
