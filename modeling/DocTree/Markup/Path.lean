import DocTree.Arena.Navigation
import DocTree.Text.Letter

namespace DocTree.Markup

def pathStep (a : Arena) (x : NodeId) : Except Error String := do
  let name := Text.lowerString (← a.localName x)
  match ← a.parentElement x with
  | none => return name ++ ":root"
  | some _ =>
    let place := ((← a.siblingElements x).idxOf? x).map (· + 1)
    return name ++ ":nth-child(" ++ .ofList (Integer.digits (place.getD 1)) ++ ")"

def pathSteps (a : Arena) : List NodeId → Except Error (List String)
  | [] => return []
  | x :: xs => do
    let step ← pathStep a x
    return step :: (← pathSteps a xs)

def path (a : Arena) (x : NodeId) : Except Error String := do
  let n ← a.get x
  if !n.isElement then throw (.pathNeedsElement x n.kind)
  let steps ← pathSteps a (x :: (← a.ancestorElements x))
  return " > ".intercalate steps.reverse

end DocTree.Markup
