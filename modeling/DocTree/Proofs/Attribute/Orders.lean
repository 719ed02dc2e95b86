import DocTree.Proofs.Attribute.Table
import DocTree.Proofs.Markup.Outline
import DocTree.Proofs.Selector.Meaning
import DocTree.Proofs.Selector.Unremembered
import Mathlib.Logic.Function.Basic

/-! Matching and markup with the attributes of each element in a table of its own, in the order in
which they are gone through.  The order does not show in markup; it does not show in a match either
unless a name of the selector is that of several attributes but for the case of its letters. -/

namespace DocTree

def Arena.tables (a : Arena) (x : NodeId) : Table :=
  match (a.find? x).bind (·.element?) with
  | some e => e.attributes.table
  | none => Attributes.empty.table

namespace Predicate

def holdsIn (a : Arena) (t : Table) (x : NodeId) (e : Element) : Predicate → Except Error Bool
  | .id text => return Text.sameIgnoringCase (t.text "id") text
  | .className name => return (classTokens (t.text "class")).contains name
  | .hasAttribute name => return (t.getIgnoringCase? name).isSome
  | .attribute name operator value =>
    return (t.getIgnoringCase? name).any fun v => operator.holds v.print value.toList
  | p => p.holds a x e

def evaluateIn (a : Arena) (o : NodeId → Table) (p : Predicate) (x : NodeId) : Except Error Bool :=
  a.onElement x fun e => p.holdsIn a (o x) x e

def attributeName? : Predicate → Option String
  | .hasAttribute name => some name
  | .attribute name _ _ => some name
  | _ => none

end Predicate

def Selector.evaluateBy (a : Arena) (ask : Predicate → Evaluation) : Selector → Evaluation
  | .simple p, x => ask p x
  | .all parts, x => a.onElement x fun _ =>
      if parts.isEmpty then return false else parts.allM (ask · x)
  | .combined .descendant left right, x => a.onElement x fun _ => do
      if ← right.evaluateBy a ask x then
        Arena.anyAlong a.parentElement (left.evaluateBy a ask) (a.nextId + 1) x
      else return false
  | .combined .child left right, x => a.onElement x fun _ => do
      match ← a.parentElement x with
      | some p => if ← left.evaluateBy a ask p then right.evaluateBy a ask x else return false
      | none => return false
  | .combined .sibling left right, x => a.onElement x fun _ => do
      if ← right.evaluateBy a ask x then
        (← a.earlierElements x).anyM (left.evaluateBy a ask)
      else return false

def Selector.predicates : Selector → List Predicate
  | .simple p => [p]
  | .all parts => parts
  | .combined _ left right => left.predicates ++ right.predicates

namespace SelectorList

def evaluateIn (a : Arena) (o : NodeId → Table) (l : SelectorList) (x : NodeId) :
    Except Error Bool :=
  a.onElement x fun _ => l.groups.anyM fun s => s.evaluateBy a (Predicate.evaluateIn a o) x

def attributeNames (l : SelectorList) : List String :=
  (l.groups.flatMap (·.predicates)).filterMap (·.attributeName?)

/-- No attribute name of the selectors is that of several entries. -/
def Unambiguous (l : SelectorList) (t : Table) : Prop :=
  ∀ name ∈ l.attributeNames, t.Unambiguous name

end SelectorList

namespace Markup

def Format.performIn (f : Format) (a : Arena) (o : NodeId → Table) :
    Task → Except Error (List String × List Task)
  | .node x depth => do
    let n ← a.get x
    match n.data with
    | .element e =>
      return ([f.line depth (f.startTag e.name (o x).resolved)],
        n.children.map (.node · (depth + 1)) ++ [.close x depth])
    | _ => f.perform a (.node x depth)
  | .close x depth => f.perform a (.close x depth)

def Format.serializeIn (f : Format) (a : Arena) (o : NodeId → Table) (x : NodeId) :
    Except Error String :=
  return String.join (← Worklist.run (f.performIn a o) (2 * a.nextId + 1) [.node x 0])

end Markup

open Markup

variable {a : Arena} {o o' : NodeId → Table} {t u : Table} {x y : NodeId} {n : Node} {e : Element}
  {ask ask' : Predicate → Evaluation} {s : Selector} {l : SelectorList}

namespace Predicate

theorem holdsIn_table (p : Predicate) : p.holdsIn a e.attributes.table x e = p.holds a x e := by
  cases p <;> rfl

theorem holdsIn_congr {p : Predicate} (h : t.Alike u)
    (hp : ∀ name, p.attributeName? = some name → t.Unambiguous name) :
    p.holdsIn a t x e = p.holdsIn a u x e := by
  cases p with
  | id text => rw [holdsIn, holdsIn, h.text_eq]
  | className name => rw [holdsIn, holdsIn, h.text_eq]
  | hasAttribute name => rw [holdsIn, holdsIn, h.getIgnoringCase?_eq (hp name rfl)]
  | «attribute» name => rw [holdsIn, holdsIn, h.getIgnoringCase?_eq (hp name rfl)]
  | _ => rfl

end Predicate

namespace Arena

theorem tables_eq (hx : a.find? x = some n) (he : n.element? = some e) :
    a.tables x = e.attributes.table := by
  simp only [tables, hx, Option.bind_some, he]

theorem onElement_congr {p q : Element → Except Error Bool}
    (h : ∀ n e, a.find? x = some n → n.element? = some e → p e = q e) :
    a.onElement x p = a.onElement x q := by
  rw [onElement, onElement]
  cases hx : a.get x with
  | error err => rfl
  | ok n =>
    cases he : n.element? with
    | none => simp [he]
    | some e => simpa [he] using h n e (get_eq_ok_iff.1 hx) he

end Arena

theorem anyM_congr {p q : α → Except Error Bool} {xs : List α} (h : ∀ x ∈ xs, p x = q x) :
    xs.anyM p = xs.anyM q := by
  induction xs with
  | nil => rfl
  | cons x xs ih =>
    obtain ⟨hx, hxs⟩ := List.forall_mem_cons.1 h
    rw [List.anyM_cons, List.anyM_cons, hx, ih hxs]

theorem allM_congr {p q : α → Except Error Bool} {xs : List α} (h : ∀ x ∈ xs, p x = q x) :
    xs.allM p = xs.allM q := by
  induction xs with
  | nil => rfl
  | cons x xs ih =>
    obtain ⟨hx, hxs⟩ := List.forall_mem_cons.1 h
    rw [List.allM_cons, List.allM_cons, hx, ih hxs]

namespace Selector

theorem evaluateBy_congr (h : ∀ p ∈ s.predicates, ask p = ask' p) :
    s.evaluateBy a ask = s.evaluateBy a ask' := by
  induction s with
  | simple p => exact h p List.mem_cons_self
  | all parts =>
    funext x
    have hparts : parts.allM (ask · x) = parts.allM (ask' · x) :=
      allM_congr fun p hp => congrFun (h p hp) x
    rw [evaluateBy, evaluateBy, hparts]
  | combined c left right ihl ihr =>
    have hleft := ihl fun p hp => h p (List.mem_append_left _ hp)
    have hright := ihr fun p hp => h p (List.mem_append_right _ hp)
    funext x
    cases c <;> simp only [evaluateBy, hleft, hright]

theorem evaluateBy_evaluate (a : Arena) (s : Selector) :
    s.evaluateBy a (Predicate.evaluate a) = s.evaluate a := by
  induction s with
  | simple p => rfl
  | all parts => rfl
  | combined c left right ihl ihr =>
    funext x
    cases c
    all_goals
      rw [evaluateBy, ihl, ihr]
      rfl

end Selector

namespace SelectorList

theorem mem_attributeNames {p : Predicate} {name : String} (hs : s ∈ l.groups)
    (hp : p ∈ s.predicates) (hname : p.attributeName? = some name) : name ∈ l.attributeNames :=
  List.mem_filterMap.2 ⟨p, List.mem_flatMap.2 ⟨s, hs, hp⟩, hname⟩

theorem evaluateIn_tables (a : Arena) (l : SelectorList) :
    l.evaluateIn a a.tables = l.evaluate a := by
  have hpredicates : Predicate.evaluateIn a a.tables = Predicate.evaluate a := by
    funext p x
    refine Arena.onElement_congr fun n e hx he => ?_
    rw [Arena.tables_eq hx he, p.holdsIn_table]
  funext x
  simp only [evaluateIn, evaluate, hpredicates, Selector.evaluateBy_evaluate]

theorem evaluateIn_update (h : t.Alike u) (hl : l.Unambiguous t) (a : Arena) (o : NodeId → Table)
    (x : NodeId) :
    l.evaluateIn a (Function.update o x t) = l.evaluateIn a (Function.update o x u) := by
  funext y
  refine Arena.onElement_congr fun n e _ _ => anyM_congr fun s hs => ?_
  refine congrFun (Selector.evaluateBy_congr fun p hp => ?_) y
  funext z
  refine Arena.onElement_congr fun n e _ _ => ?_
  by_cases hz : z = x
  · subst hz
    rw [Function.update_self, Function.update_self]
    exact Predicate.holdsIn_congr h fun name hname => hl name (mem_attributeNames hs hp hname)
  · rw [Function.update_of_ne hz, Function.update_of_ne hz]

end SelectorList

namespace Markup

theorem Format.performIn_tables (f : Format) (a : Arena) :
    f.performIn a a.tables = f.perform a := by
  funext task
  cases task with
  | close x depth => rfl
  | node x depth =>
    simp only [performIn, perform]
    cases hx : a.get x with
    | error err => rfl
    | ok n =>
      cases hdata : n.data with
      | element e =>
        have he : n.element? = some e := by simp [Node.element?, hdata]
        have hresolved : e.attributes.table.resolved = e.attributes.resolved := by
          rw [Table.resolved, Table.names_table]
          rfl
        simp [hdata, Arena.tables_eq (Arena.get_eq_ok_iff.1 hx) he, hresolved,
          Format.openingTag_eq]
      | _ => simp [hdata]

theorem Format.serializeIn_tables (f : Format) (a : Arena) (x : NodeId) :
    f.serializeIn a a.tables x = f.serialize a x := by
  rw [serializeIn, serialize, performIn_tables]

theorem Format.serializeIn_update (f : Format) (h : t.Alike u) (a : Arena) (o : NodeId → Table)
    (x y : NodeId) :
    f.serializeIn a (Function.update o x t) y = f.serializeIn a (Function.update o x u) y := by
  have hresolved : ∀ z,
      (Function.update o x t z).resolved = (Function.update o x u z).resolved := by
    intro z
    by_cases hz : z = x
    · subst hz
      rw [Function.update_self, Function.update_self, h.resolved_eq]
    · rw [Function.update_of_ne hz, Function.update_of_ne hz]
  have hperform : f.performIn a (Function.update o x t) =
      f.performIn a (Function.update o x u) := by
    funext task
    cases task with
    | close x depth => rfl
    | node x depth => simp only [performIn, hresolved]
  rw [serializeIn, serializeIn, hperform]

end Markup

end DocTree
