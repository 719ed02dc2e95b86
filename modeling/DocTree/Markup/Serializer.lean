import DocTree.Arena.Walk
import DocTree.Markup.Format
import DocTree.Text.Entity

namespace DocTree.Markup

def declarationLine : String := "<?xml version=\"1.0\" encoding=\"UTF-8\"?>"

def Format.line (f : Format) (depth : Nat) (text : String) : String :=
  String.join (.replicate depth f.indent) ++ text ++ "\n"

def Format.attribute (f : Format) (name : String) (value : Value) : String :=
  " " ++ name ++ "=\"" ++ (if f.escapes then Text.escape value.text else value.text) ++ "\""

def Format.openingTag (f : Format) (e : Element) : String :=
  "<" ++ e.name ++ String.join (e.attributes.entries.map fun p => f.attribute p.1 p.2) ++ ">"

def closingTag (e : Element) : String := "</" ++ e.name ++ ">"

def commentTag (text : String) : String := "<!--" ++ text ++ "-->"

inductive Task
  | node (x : NodeId) (depth : Nat)
  | close (x : NodeId) (depth : Nat)
  deriving DecidableEq, Repr

/-- Writes one line and yields the tasks that come next.  The children of a document stand at its
own depth. -/
def Format.perform (f : Format) (a : Arena) : Task → Except Error (List String × List Task)
  | .node x depth => do
    let n ← a.get x
    match n.data with
    | .document =>
      return (if f.declaration then [f.line depth declarationLine] else [],
        n.children.map (.node · depth))
    | .element e =>
      return ([f.line depth (f.openingTag e)],
        n.children.map (.node · (depth + 1)) ++ [.close x depth])
    | .comment s => return ([f.line depth (commentTag s)], [])
  | .close x depth => return ([f.line depth (closingTag (← a.element x))], [])

def Format.serialize (f : Format) (a : Arena) (x : NodeId) : Except Error String :=
  return String.join (← Worklist.run (f.perform a) (2 * a.nextId + 1) [.node x 0])

end DocTree.Markup
