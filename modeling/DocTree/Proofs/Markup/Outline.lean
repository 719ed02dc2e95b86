import DocTree.Markup.Serializer
import DocTree.Proofs.Arena.WellFormed
import DocTree.Proofs.Attribute.Agreement

namespace DocTree

def Attributes.resolved (s : Attributes) : List (String × String) :=
  s.names.map fun k => (k, s.text k)

theorem Attributes.resolved_eq_map (s : Attributes) :
    s.resolved = s.entries.map fun p => (p.1, p.2.text) := by
  rw [resolved, names, List.map_map]
  refine List.map_congr_left fun p hp => ?_
  have hget : s.get? p.1 = some p.2 := mem_entries_iff.1 hp
  simp [text, hget]

namespace Markup

inductive Label
  | document
  | element (name : String) (attributes : List (String × String))
  | comment (text : String)

inductive Outline
  | nil
  | node (label : Label) (children rest : Outline)

end Markup

open Markup

def NodeData.label : NodeData → Label
  | document => .document
  | element e => .element e.name e.attributes.resolved
  | comment s => .comment s

inductive Arena.Outlines (a : Arena) : List NodeId → Outline → Prop
  | nil : Outlines a [] .nil
  | cons : a.find? x = some n → Outlines a n.children cs → Outlines a xs os →
      Outlines a (x :: xs) (.node n.data.label cs os)

namespace Markup

variable {f : Format}

def Format.attributeText (f : Format) (p : String × String) : String :=
  " " ++ p.1 ++ "=\"" ++ (if f.escapes then Text.escape p.2 else p.2) ++ "\""

def Format.startTag (f : Format) (name : String) (attributes : List (String × String)) : String :=
  "<" ++ name ++ String.join (attributes.map f.attributeText) ++ ">"

theorem Format.openingTag_eq (f : Format) (e : Element) :
    f.openingTag e = f.startTag e.name e.attributes.resolved := by
  rw [openingTag, startTag, Attributes.resolved_eq_map, List.map_map]
  rfl

def endTag (name : String) : String := "</" ++ name ++ ">"

namespace Outline

def lines (f : Format) : Outline → Nat → List String
  | nil, _ => []
  | node .document children rest, depth =>
    (if f.declaration then [f.line depth declarationLine] else []) ++
      (children.lines f depth ++ rest.lines f depth)
  | node (.element name attributes) children rest, depth =>
    f.line depth (f.startTag name attributes) ::
      (children.lines f (depth + 1) ++ f.line depth (endTag name) :: rest.lines f depth)
  | node (.comment text) _ rest, depth => f.line depth (commentTag text) :: rest.lines f depth

def tasks : Outline → Nat
  | nil => 0
  | node .document children rest => children.tasks + rest.tasks + 1
  | node (.element ..) children rest => children.tasks + (rest.tasks + 1) + 1
  | node (.comment _) _ rest => rest.tasks + 1

theorem tasks_node_le (label : Label) (cs os : Outline) :
    (node label cs os).tasks ≤ cs.tasks + os.tasks + 2 := by
  cases label <;> simp only [tasks] <;> omega

end Outline

end Markup

namespace Arena

variable {a : Arena} {x : NodeId} {n : Node} {xs ys : List NodeId} {o p : Outline} {f : Format}

theorem Outlines.unique (ho : a.Outlines xs o) (hp : a.Outlines xs p) : o = p := by
  induction ho generalizing p with
  | nil =>
    cases hp
    rfl
  | cons hx _ _ ihc ihs =>
    cases hp with
    | cons hx' hc hs =>
      obtain rfl := Option.eq_some_unique hx hx'
      rw [ihc hc, ihs hs]

theorem Preorder.exists_outlines (hp : a.Preorder xs ys) :
    ∃ o, a.Outlines xs o ∧ o.tasks ≤ 2 * ys.length := by
  induction hp with
  | nil => exact ⟨.nil, .nil, Nat.le_refl 0⟩
  | @cons x n ys xs zs hx _ _ ihc ihs =>
    obtain ⟨cs, hcs, hctasks⟩ := ihc
    obtain ⟨os, hos, hotasks⟩ := ihs
    refine ⟨_, .cons hx hcs hos, ?_⟩
    have htasks := Outline.tasks_node_le n.data.label cs os
    rw [List.length_cons, List.length_append]
    omega

theorem Outlines.run_eq (ho : a.Outlines xs o) (f : Format) (depth : Nat) {rest : List Task}
    {fuel : Nat} {out : List String} (hrest : Worklist.run (f.perform a) fuel rest = .ok out) :
    Worklist.run (f.perform a) (o.tasks + fuel) (xs.map (.node · depth) ++ rest) =
      .ok (o.lines f depth ++ out) := by
  induction ho generalizing depth rest fuel out with
  | nil => simpa [Outline.tasks, Outline.lines] using hrest
  | @cons x n cs xs os hx _ _ ihc ihs =>
    have hnext := ihs depth hrest
    cases hdata : n.data with
    | document =>
      have hopen : f.perform a (.node x depth) =
          .ok (if f.declaration then [f.line depth declarationLine] else [],
            n.children.map (.node · depth)) := by
        simp [Format.perform, get_eq_ok hx, hdata]
      have hfuel : (Outline.node .document cs os).tasks + fuel =
          cs.tasks + (os.tasks + fuel) + 1 := by
        simp only [Outline.tasks]
        omega
      rw [NodeData.label, hfuel, List.map_cons, List.cons_append,
        Worklist.run_cons_ok hopen (ihc depth hnext)]
      simp only [Outline.lines, List.append_assoc]
    | element e =>
      have hopen : f.perform a (.node x depth) =
          .ok ([f.line depth (f.openingTag e)],
            n.children.map (.node · (depth + 1)) ++ [.close x depth]) := by
        simp [Format.perform, get_eq_ok hx, hdata]
      have hclose : f.perform a (.close x depth) = .ok ([f.line depth (closingTag e)], []) := by
        simp [Format.perform, element, get_eq_ok hx, hdata, Node.element?]
      have hfuel : (Outline.node (.element e.name e.attributes.resolved) cs os).tasks + fuel =
          cs.tasks + (os.tasks + fuel + 1) + 1 := by
        simp only [Outline.tasks]
        omega
      have hclosed : Worklist.run (f.perform a) (os.tasks + fuel + 1)
          (.close x depth :: (xs.map (.node · depth) ++ rest)) =
            .ok ([f.line depth (closingTag e)] ++ (os.lines f depth ++ out)) :=
        Worklist.run_cons_ok hclose hnext
      have hchildren := ihc (depth + 1) hclosed
      rw [List.append_cons] at hchildren
      rw [NodeData.label, hfuel, List.map_cons, List.cons_append,
        Worklist.run_cons_ok hopen hchildren]
      simp only [Outline.lines, Format.openingTag_eq, closingTag, endTag, List.append_assoc,
        List.cons_append, List.nil_append]
    | comment s =>
      have hopen : f.perform a (.node x depth) = .ok ([f.line depth (commentTag s)], []) := by
        simp [Format.perform, get_eq_ok hx, hdata]
      have hfuel : (Outline.node (.comment s) cs os).tasks + fuel = os.tasks + fuel + 1 := by
        simp only [Outline.tasks]
        omega
      have hrun : Worklist.run (f.perform a) (os.tasks + fuel + 1)
          (.node x depth :: (xs.map (.node · depth) ++ rest)) =
            .ok ([f.line depth (commentTag s)] ++ (os.lines f depth ++ out)) :=
        Worklist.run_cons_ok hopen hnext
      rw [NodeData.label, hfuel, List.map_cons, List.cons_append, hrun]
      simp only [Outline.lines, List.cons_append, List.nil_append]

theorem Forest.serialize_eq (h : a.Forest) (hx : a.find? x = some n) (ho : a.Outlines [x] o)
    (f : Format) : f.serialize a x = .ok (String.join (o.lines f 0)) := by
  have hpre := (h.preorder_spec hx).2
  obtain ⟨p, hp, htasks⟩ := hpre.exists_outlines
  obtain rfl := ho.unique hp
  have hlen := h.length_subtree_le hx
  obtain ⟨fuel, hfuel⟩ : ∃ fuel, 2 * a.nextId + 1 = o.tasks + fuel :=
    Nat.exists_eq_add_of_le (by omega)
  have hrun : Worklist.run (f.perform a) (2 * a.nextId + 1) [.node x 0] =
      .ok (o.lines f 0) := by
    have hlines := ho.run_eq f 0 (Worklist.run_nil (f.perform a) fuel)
    rwa [List.append_nil, List.append_nil, ← hfuel] at hlines
  rw [Format.serialize, hrun]
  rfl

end Arena

end DocTree
