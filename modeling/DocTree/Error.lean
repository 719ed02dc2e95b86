import DocTree.Node
import DocTree.Text.Quoted

namespace DocTree

inductive Error
  | unknownNode (id : NodeId)
  | notDocument (id : NodeId)
  | notElement (id : NodeId)
  | notComment (id : NodeId)
  | adoptsDocument
  | insertsDocument
  | pathNeedsElement (id : NodeId) (kind : NodeKind)
  | parentIsComment
  | insertsAncestor
  | secondElement
  | manyElements
  | noDocument (id : NodeId)
  | releasesAttached
  | releasesOwner
  | notChild (child parent : NodeId)
  | stopped
  | indentNotBlank (indent : String)
  | malformedFormat
  deriving DecidableEq, Repr

namespace Error

inductive Kind
  | typeViolation
  | hierarchyViolation
  | notFound
  | unknownNode
  | invalidFormat
  | malformedFormat
  deriving DecidableEq, Repr

def kind : Error → Kind
  | unknownNode _ => .unknownNode
  | notDocument _ | notElement _ | notComment _ | adoptsDocument | insertsDocument
  | pathNeedsElement .. => .typeViolation
  | parentIsComment | insertsAncestor | secondElement | manyElements | noDocument _
  | releasesAttached | releasesOwner => .hierarchyViolation
  | notChild .. | stopped => .notFound
  | indentNotBlank _ => .invalidFormat
  | malformedFormat => .malformedFormat

def Kind.label : Kind → String
  | typeViolation => "Type violation: "
  | hierarchyViolation => "Hierarchy violation: "
  | notFound => "Not found: "
  | unknownNode => "Unknown node: "
  | invalidFormat => "Invalid configuration: "
  | malformedFormat => "Config parse error: "

def idText (id : NodeId) : String := .ofList (Integer.digits id)

def text : Error → String
  | unknownNode id => idText id
  | notDocument id => "node " ++ idText id ++ " is not a document"
  | notElement id => "node " ++ idText id ++ " is not an element"
  | notComment id => "node " ++ idText id ++ " is not a comment"
  | adoptsDocument => "a document cannot be adopted"
  | insertsDocument => "node must be Element or Comment node"
  | pathNeedsElement id kind =>
    "selector_path needs an element, node " ++ idText id ++ " is a " ++ kind.name
  | parentIsComment => "parent must be Document or Element node"
  | insertsAncestor => "node must not be an inclusive ancestor of parent"
  | secondElement => "document already has an element child"
  | manyElements => "document can only have one element child"
  | noDocument id => "node " ++ idText id ++ " has no document"
  | releasesAttached => "only detached nodes can be released"
  | releasesOwner => "document still owns detached nodes"
  | notChild child parent =>
    "node " ++ idText child ++ " is not a child of " ++ idText parent
  | stopped => "stopped"
  | indentNotBlank indent => "indent must be whitespace, got " ++ Text.quoted indent
  | malformedFormat => "malformed document"

def message (e : Error) : String := e.kind.label ++ e.text

end Error

instance liftExcept : MonadLift (Except ε) (EStateM ε σ) where
  monadLift
    | .ok v => pure v
    | .error e => throw e

@[simp] theorem liftM_ok (v : α) : (liftM (.ok v : Except ε α) : EStateM ε σ α) = pure v := rfl

@[simp] theorem liftM_error (e : ε) :
    (liftM (.error e : Except ε α) : EStateM ε σ α) = throw e := rfl

end DocTree
