import DocTree.Attribute.Store

namespace DocTree

abbrev NodeId := Nat

inductive NodeKind
  | element
  | comment
  | document
  deriving DecidableEq, Repr

namespace NodeKind

def code : NodeKind → Nat
  | element => 1
  | comment => 8
  | document => 9

def ofCode? : Nat → Option NodeKind
  | 1 => some element
  | 8 => some comment
  | 9 => some document
  | _ => none

def name : NodeKind → String
  | element => "Element"
  | comment => "Comment"
  | document => "Document"

end NodeKind

structure Element where
  name : String
  attributes : Attributes
  deriving DecidableEq

inductive NodeData
  | document
  | element (element : Element)
  | comment (text : String)
  deriving DecidableEq

namespace NodeData

def kind : NodeData → NodeKind
  | document => .document
  | element _ => .element
  | comment _ => .comment

def agrees : NodeData → NodeData → Bool
  | document, document => true
  | element e, element f => e.name == f.name && e.attributes.agrees f.attributes
  | comment s, comment t => s == t
  | _, _ => false

end NodeData

structure Node where
  id : NodeId
  parent : Option NodeId
  children : List NodeId
  /-- The document that owns the node; it stays when the node is detached. -/
  owner : Option NodeId
  data : NodeData
  deriving DecidableEq

namespace Node

def detached (id : NodeId) (owner : Option NodeId) (data : NodeData) : Node :=
  ⟨id, none, [], owner, data⟩

def kind (n : Node) : NodeKind := n.data.kind

def isElement (n : Node) : Bool := n.kind = .element

def isDocument (n : Node) : Bool := n.kind = .document

def isComment (n : Node) : Bool := n.kind = .comment

def element? (n : Node) : Option Element :=
  match n.data with
  | .element e => some e
  | _ => none

def comment? (n : Node) : Option String :=
  match n.data with
  | .comment s => some s
  | _ => none

def ownerDocument (n : Node) : Option NodeId := if n.isDocument then none else n.owner

def document (n : Node) : Option NodeId := if n.isDocument then some n.id else n.owner

def attributes? (n : Node) : Option Attributes := n.element?.map (·.attributes)

end Node

end DocTree
