import DocTree.Proofs.Edit.Operation
import DocTree.Proofs.Markup.Outline

namespace DocTree

structure Attributes.Lists (s : Attributes) (ps : List (String × String)) : Prop where
  ascending : ps.Pairwise fun p q => p.1 < q.1
  mem_iff : ∀ {name text}, (name, text) ∈ ps ↔ s.contains name = true ∧ s.text name = text

namespace Attributes

variable {s : Attributes} {ps : List (String × String)}

theorem lists_resolved (s : Attributes) : s.Lists s.resolved where
  ascending := by
    rw [resolved_eq_map]
    exact List.pairwise_map.2 s.ascending
  mem_iff {name t} := by
    simp only [resolved, names, List.mem_map, Prod.mk.injEq]
    constructor
    · rintro ⟨_, ⟨⟨k, v⟩, hp, rfl⟩, rfl, rfl⟩
      exact ⟨by rw [contains, mem_entries_iff.1 hp, Option.isSome_some], rfl⟩
    · rintro ⟨hname, rfl⟩
      obtain ⟨v, hv⟩ := Option.isSome_iff_exists.1 hname
      exact ⟨name, ⟨(name, v), mem_entries_iff.2 hv, rfl⟩, rfl, rfl⟩

theorem Lists.unique (hp : s.Lists ps) : ps = s.resolved := by
  have hs := s.lists_resolved
  have hnodup : ∀ {qs}, s.Lists qs → qs.Nodup := fun hq =>
    hq.ascending.imp fun hlt heq => String.ne_of_lt hlt (congrArg Prod.fst heq)
  have hperm : ps.Perm s.resolved :=
    (List.perm_ext_iff_of_nodup (hnodup hp) (hnodup hs)).2 fun p => hp.mem_iff.trans hs.mem_iff.symm
  exact hperm.eq_of_pairwise
    (fun _ _ _ _ hlt hgt => absurd hgt (String.lt_asymm hlt)) hp.ascending hs.ascending

end Attributes

namespace Markup

/-- The text of each live node at each depth, by the texts of its children.  The lines of an element
enclose those of its children, which stand one step deeper; the children of a document stand at its
own depth. -/
structure Layout (f : Format) (a : Arena) (text : NodeId → Nat → String) : Prop where
  document : ∀ {x n}, a.find? x = some n → n.data = .document → ∀ depth,
    text x depth = (if f.declaration then f.line depth declarationLine else "") ++
      String.join (n.children.map (text · depth))
  element : ∀ {x n e}, a.find? x = some n → n.data = .element e → ∀ depth,
    ∃ ps, e.attributes.Lists ps ∧
      text x depth = f.line depth (f.startTag e.name ps) ++
        (String.join (n.children.map (text · (depth + 1))) ++ f.line depth (endTag e.name))
  comment : ∀ {x n s}, a.find? x = some n → n.data = .comment s → ∀ depth,
    text x depth = f.line depth (commentTag s)

variable {f : Format} {a : Arena} {text : NodeId → Nat → String} {xs : List NodeId} {o : Outline}

theorem Outline.join_lines_node (f : Format) (label : Label) (cs os : Outline) (depth : Nat) :
    String.join ((Outline.node label cs os).lines f depth) =
      String.join ((Outline.node label cs .nil).lines f depth) ++
        String.join (os.lines f depth) := by
  cases label <;> simp [lines, String.append_assoc]

theorem Layout.join_eq (h : Layout f a text) (ho : a.Outlines xs o) (depth : Nat) :
    String.join (xs.map (text · depth)) = String.join (o.lines f depth) := by
  induction ho generalizing depth with
  | nil => rfl
  | @cons x n cs xs os hx _ _ ihc ihs =>
    rw [List.map_cons, String.join_cons, Outline.join_lines_node, ihs]
    congr 1
    cases hdata : n.data with
    | document =>
      rw [h.document hx hdata, ihc]
      cases hdecl : f.declaration <;> simp [NodeData.label, Outline.lines, hdecl]
    | element e =>
      obtain ⟨ps, hps, heq⟩ := h.element hx hdata depth
      rw [heq, ihc, hps.unique]
      simp [NodeData.label, Outline.lines]
    | comment s =>
      rw [h.comment hx hdata]
      simp [NodeData.label, Outline.lines]

theorem layout_of_outlines (h : a.Forest)
    (htext : ∀ {x o}, a.Outlines [x] o → ∀ depth, text x depth = String.join (o.lines f depth)) :
    Layout f a text := by
  have hjoin : ∀ {xs o}, a.Outlines xs o → ∀ depth,
      String.join (xs.map (text · depth)) = String.join (o.lines f depth) := by
    intro xs o ho depth
    induction ho with
    | nil => rfl
    | cons hx hc _ _ ihs =>
      rw [List.map_cons, String.join_cons, htext (.cons hx hc .nil), ihs, ← Outline.join_lines_node]
  have hchildren : ∀ {x n}, a.find? x = some n → ∃ cs, a.Outlines n.children cs ∧
      ∀ depth, text x depth = String.join ((Outline.node n.data.label cs .nil).lines f depth) := by
    intro x n hx
    obtain ⟨ys, hys, -⟩ := h.exists_preorder_children hx
    obtain ⟨cs, hcs, -⟩ := hys.exists_outlines
    exact ⟨cs, hcs, htext (.cons hx hcs .nil)⟩
  refine ⟨fun hx hdata depth => ?document, fun {x n e} hx hdata depth => ?element,
    fun hx hdata depth => ?comment⟩ <;>
    obtain ⟨cs, hcs, heq⟩ := hchildren hx <;> rw [heq, hdata, NodeData.label]
  case document =>
    rw [hjoin hcs]
    cases hdecl : f.declaration <;> simp [Outline.lines, hdecl]
  case element =>
    refine ⟨e.attributes.resolved, e.attributes.lists_resolved, ?_⟩
    rw [hjoin hcs]
    simp [Outline.lines]
  case comment => simp [Outline.lines]

end Markup

namespace Arena

open Markup

variable {a : Arena}

/-- Markup is the text by recursion, which there is just once. -/
theorem Reachable.serialize_layout (ha : a.Reachable) (f : Format) :
    (∃ text, Layout f a text) ∧ ∀ text, Layout f a text →
      ∀ x n, a.find? x = some n → f.serialize a x = .ok (text x 0) := by
  have h := ha.wellFormed.toForest
  have houtline : ∀ x, ∃ o, ∀ n, a.find? x = some n → a.Outlines [x] o := by
    intro x
    cases hx : a.find? x with
    | none => exact ⟨.nil, nofun⟩
    | some n =>
      obtain ⟨o, ho, -⟩ := (h.preorder_spec hx).2.exists_outlines
      exact ⟨o, fun _ _ => ho⟩
  choose outline houtline using houtline
  constructor
  · refine ⟨fun x depth => String.join ((outline x).lines f depth), layout_of_outlines h ?_⟩
    intro x o ho depth
    obtain ⟨n, hx⟩ : ∃ n, a.find? x = some n := by
      cases ho with
      | cons hx => exact ⟨_, hx⟩
    rw [ho.unique (houtline x n hx)]
  · intro text htext x n hx
    have ho := houtline x n hx
    have hjoin := htext.join_eq ho 0
    rw [h.serialize_eq hx ho, ← hjoin]
    simp

theorem serialize_layout_nested : ∃ a : Arena, a.Reachable ∧ (∃ n, a.find? 0 = some n) ∧
    ∃ text, Layout .default a text ∧ Format.default.serialize a 0 = .ok (text 0 0) ∧
      text 0 0 = declarationLine ++ "\n<a k=\"1\" m=\"&lt;\">\n  <b>\n    <!--c-->\n  </b>\n" ++
        "  <d>\n  </d>\n</a>\n" := by
  have h : (Operation.run [.createDocument, .createElement 0 "a", .setAttribute 1 "m" (.string "<"),
      .setAttribute 1 "k" (.bool true), .createElement 0 "b", .createComment 0 "c",
      .createElement 0 "d", .append 1 [2, 4], .appendChild 2 3, .appendChild 0 1]
      .empty).Reachable := ⟨⟨_, rfl⟩, by decide +kernel⟩
  obtain ⟨⟨text, htext⟩, hall⟩ := h.serialize_layout .default
  have hrun := hall text htext 0 _ (Option.some_get (by decide +kernel)).symm
  refine ⟨_, h, ⟨_, (Option.some_get (by decide +kernel)).symm⟩, text, htext, hrun,
    Except.ok.inj (hrun.symm.trans ?_)⟩
  decide +kernel

end Arena

end DocTree
