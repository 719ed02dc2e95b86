import DocTree.Arena.Basic

namespace DocTree.Arena

def expectDocument (a : Arena) (x : NodeId) : Except Error Unit := do
  if (← a.get x).isDocument then return () else throw (.notDocument x)

def element (a : Arena) (x : NodeId) : Except Error Element := do
  match (← a.get x).element? with
  | some e => return e
  | none => throw (.notElement x)

def commentText (a : Arena) (x : NodeId) : Except Error String := do
  match (← a.get x).comment? with
  | some s => return s
  | none => throw (.notComment x)

def kind (a : Arena) (x : NodeId) : Except Error NodeKind := return (← a.get x).kind

def localName (a : Arena) (x : NodeId) : Except Error String := return (← a.element x).name

def attributes (a : Arena) (x : NodeId) : Except Error Attributes :=
  return (← a.element x).attributes

def getAttribute (a : Arena) (x : NodeId) (name : String) : Except Error (Option Value) :=
  return (← a.attributes x).get? name

def hasAttribute (a : Arena) (x : NodeId) (name : String) : Except Error Bool :=
  return (← a.attributes x).contains name

def attributeNames (a : Arena) (x : NodeId) : Except Error (List String) :=
  return (← a.attributes x).names

def ownerDocument (a : Arena) (x : NodeId) : Except Error (Option NodeId) :=
  return (← a.get x).ownerDocument

def nodeDocument (a : Arena) (x : NodeId) : Except Error (Option NodeId) :=
  return (← a.get x).document

def parent (a : Arena) (x : NodeId) : Except Error (Option NodeId) := return (← a.get x).parent

def parentElement (a : Arena) (x : NodeId) : Except Error (Option NodeId) := do
  match (← a.get x).parent with
  | none => return none
  | some p => return if (← a.get p).isElement then some p else none

def childNodes (a : Arena) (x : NodeId) : Except Error (List NodeId) := return (← a.get x).children

def hasChildNodes (a : Arena) (x : NodeId) : Except Error Bool := return !(← a.childNodes x).isEmpty

def firstChild (a : Arena) (x : NodeId) : Except Error (Option NodeId) :=
  return (← a.childNodes x).head?

def lastChild (a : Arena) (x : NodeId) : Except Error (Option NodeId) :=
  return (← a.childNodes x).getLast?

/-- The steps from `x` along `next`, nearest first, at most `fuel` of them. -/
def climb (next : NodeId → Except Error (Option NodeId)) : Nat → NodeId → Except Error (List NodeId)
  | 0, _ => return []
  | fuel + 1, x => do
    match ← next x with
    | none => return []
    | some y => return y :: (← climb next fuel y)

def ancestors (a : Arena) (x : NodeId) : Except Error (List NodeId) :=
  climb a.parent (a.nextId + 1) x

def ancestorElements (a : Arena) (x : NodeId) : Except Error (List NodeId) :=
  climb a.parentElement (a.nextId + 1) x

def root (a : Arena) (x : NodeId) : Except Error NodeId :=
  return (← a.ancestors x).getLast?.getD x

def isConnected (a : Arena) (x : NodeId) : Except Error Bool := do
  return (← a.get (← a.root x)).isDocument

def contains (a : Arena) (x other : NodeId) : Except Error Bool := do
  let _ ← a.get x
  return (← a.ancestors other).contains x

def elementsOf (a : Arena) : List NodeId → Except Error (List NodeId)
  | [] => return []
  | x :: xs => do
    let n ← a.get x
    let rest ← a.elementsOf xs
    return if n.isElement then x :: rest else rest

def children (a : Arena) (x : NodeId) : Except Error (List NodeId) := do
  a.elementsOf (← a.get x).children

def childElementCount (a : Arena) (x : NodeId) : Except Error Nat := return (← a.children x).length

def firstElement (a : Arena) : List NodeId → Except Error (Option NodeId)
  | [] => return none
  | x :: xs => do
    if (← a.get x).isElement then return some x else a.firstElement xs

def firstChildElement (a : Arena) (x : NodeId) : Except Error (Option NodeId) := do
  a.firstElement (← a.get x).children

def lastChildElement (a : Arena) (x : NodeId) : Except Error (Option NodeId) := do
  a.firstElement (← a.get x).children.reverse

def documentElement (a : Arena) (x : NodeId) : Except Error (Option NodeId) := do
  a.expectDocument x
  a.firstChildElement x

/-- The siblings before and after `x`, nearest first. -/
def around (a : Arena) (x : NodeId) : Except Error (List NodeId × List NodeId) := do
  match (← a.get x).parent with
  | none => return ([], [])
  | some p =>
    let siblings := (← a.get p).children
    match siblings.idxOf? x with
    | none => return ([], [])
    | some i => return ((siblings.take i).reverse, siblings.drop (i + 1))

def previousSibling (a : Arena) (x : NodeId) : Except Error (Option NodeId) :=
  return (← a.around x).1.head?

def nextSibling (a : Arena) (x : NodeId) : Except Error (Option NodeId) :=
  return (← a.around x).2.head?

def earlierElements (a : Arena) (x : NodeId) : Except Error (List NodeId) := do
  a.elementsOf (← a.around x).1

def laterElements (a : Arena) (x : NodeId) : Except Error (List NodeId) := do
  a.elementsOf (← a.around x).2

def previousElementSibling (a : Arena) (x : NodeId) : Except Error (Option NodeId) :=
  return (← a.earlierElements x).head?

def nextElementSibling (a : Arena) (x : NodeId) : Except Error (Option NodeId) :=
  return (← a.laterElements x).head?

/-- The element children of the parent, if that is an element or the node's own document. -/
def siblingElements (a : Arena) (x : NodeId) : Except Error (List NodeId) := do
  let n ← a.get x
  match n.parent with
  | none => return []
  | some p =>
    if (← a.get p).isElement || n.ownerDocument == some p then a.children p else return []

end DocTree.Arena
