import DocTree.Arena.Walk

/-! Edits of an arena.  An edit that fails says so together with the arena it leaves. -/

namespace DocTree

abbrev Edit (α : Type) := EStateM Error Arena α

namespace Edit

def create (owner : Option NodeId) (data : NodeData) : Edit NodeId := do
  let x := (← get).nextId
  modify (·.push owner data)
  return x

def createDocument : Edit NodeId := create none .document

def createElement (document : NodeId) (name : String) : Edit NodeId := do
  (← get).expectDocument document
  create (some document) (.element ⟨name, .empty⟩)

def createComment (document : NodeId) (text : String) : Edit NodeId := do
  (← get).expectDocument document
  create (some document) (.comment text)

def update (x : NodeId) (f : Node → Node) : Edit Unit := do
  let _ ← (← get).get x
  modify (·.update x f)

def updateAttributes (x : NodeId) (f : Attributes → Attributes) : Edit Attributes := do
  let e ← (← get).element x
  update x ({ · with data := .element { e with attributes := f e.attributes } })
  return e.attributes

def setAttribute (x : NodeId) (name : String) (value : Value) : Edit Unit := do
  let _ ← updateAttributes x (·.set name value)

def removeAttribute (x : NodeId) (name : String) : Edit (Option Value) := do
  return (← updateAttributes x (·.erase name)).get? name

def setCommentText (x : NodeId) (text : String) : Edit Unit := do
  let _ ← (← get).commentText x
  update x ({ · with data := .comment text })

def rename (x : NodeId) (name : String) : Edit Bool := do
  match (← (← get).get x).element? with
  | some e =>
    update x ({ · with data := .element { e with name } })
    return true
  | none => return false

def give (document x : NodeId) : Edit (List Unit × List NodeId) := do
  let n ← (← get).get x
  modify (·.update x ({ · with owner := some document }))
  return ([], n.children.reverse)

def setOwner (x document : NodeId) : Edit Unit := do
  let bound := (← get).nextId
  let _ ← Worklist.run (give document) (bound + 1) [x]

def adopt (document x : NodeId) : Edit NodeId := do
  (← get).expectDocument document
  if (← (← get).get x).isDocument then throw .adoptsDocument
  setOwner x document
  return x

/-- Frees a detached subtree and gives the number of its nodes.  A document stays as long as a node
outside its subtree is owned by it. -/
def release (x : NodeId) : Edit Nat := do
  let a ← get
  let n ← a.get x
  if n.parent.isSome then throw .releasesAttached
  let subtree ← a.preorder x
  if n.isDocument && a.nodes.any (fun m => m.owner == some x && !subtree.contains m.id) then
    throw .releasesOwner
  set (a.drop subtree)
  return subtree.length

end Edit

end DocTree
