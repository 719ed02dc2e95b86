import DocTree.Proofs.Arena.Change
import DocTree.Proofs.Arena.Siblings

namespace DocTree

namespace Node

variable {n : Node}

theorem document_eq_owner (hn : n.isDocument = false) : n.document = n.owner := by
  simp [document, hn]

theorem document_eq_self (hn : n.isDocument = true) : n.document = some n.id := by
  simp [document, hn]

theorem ownerDocument_eq_owner (hn : n.isDocument = false) : n.ownerDocument = n.owner := by
  simp [ownerDocument, hn]

end Node

namespace Arena

variable {a b : Arena} {x y p d r : NodeId} {k m n : Node} {ref : Option NodeId}

/-- The owner of a node under a parent is the document of the parent. -/
def OneOwner (a : Arena) : Prop :=
  ∀ ⦃x p n m⦄, a.find? x = some n → n.parent = some p → a.find? p = some m → n.owner = m.document

theorem oneOwner_empty : empty.OneOwner := by
  intro x p n m hx
  simp at hx

theorem OneOwner.of_old (h : a.Forest) (ho : a.OneOwner)
    (hchild : ∀ {x n p}, b.find? x = some n → n.parent = some p →
      ∃ j, a.find? x = some j ∧ j.parent = some p ∧ j.owner = n.owner)
    (hparent : ∀ {p m k}, a.find? p = some m → b.find? p = some k → k.document = m.document) :
    b.OneOwner := by
  intro x p n k hx hp hk
  obtain ⟨j, hj, hjp, hjo⟩ := hchild hx hp
  obtain ⟨m, hm, -⟩ := h.parent_live ⟨j, hj, hjp⟩
  rw [← hjo, ho hj hjp hm, hparent hm hk]

theorem OneOwner.push (h : a.Forest) (ho : a.OneOwner) (owner : Option NodeId) (data : NodeData) :
    (a.push owner data).OneOwner := by
  apply ho.of_old h
  · intro x n p hx hp
    rcases find?_push_eq_some hx with hx | ⟨-, rfl⟩
    · exact ⟨n, hx, hp, rfl⟩
    · cases hp
  · intro p m k hm hk
    rw [find?_push_of_live hm] at hk
    rw [Option.some.inj hk]

theorem OneOwner.setData (h : a.Forest) (ho : a.OneOwner) (hx : a.find? x = some n)
    {data : NodeData} (hk : data.kind = n.kind) : (a.update x ({ · with data })).OneOwner := by
  have hfind : ∀ {y j}, (a.update x ({ · with data })).find? y = some j → ∃ i, a.find? y = some i ∧
      i.parent = j.parent ∧ i.owner = j.owner ∧ j.document = i.document := by
    intro y j hy
    rw [find?_update] at hy
    split at hy
    next heq =>
      subst heq
      rw [hx] at hy
      obtain rfl := Option.some.inj hy
      refine ⟨n, hx, rfl, rfl, ?_⟩
      simp [Node.document, isDocument_congr (n := { n with data }) (m := n) hk]
    next => exact ⟨j, hy, rfl, rfl, rfl⟩
  apply ho.of_old h
  · intro y j p hy hp
    obtain ⟨i, hi, hip, hio, -⟩ := hfind hy
    exact ⟨i, hi, hip.trans hp, hio⟩
  · intro p m j hm hj
    obtain ⟨i, hi, -, -, hdoc⟩ := hfind hj
    obtain rfl := Option.eq_some_unique hm hi
    exact hdoc

theorem OneOwner.own (h : a.WellFormed) (ho : a.OneOwner) (hx : a.find? x = some n)
    (hroot : n.parent = none) (hn : n.isDocument = false) (d : NodeId) :
    (a.own (a.subtree x) d).OneOwner := by
  intro y p _ _ hy hp hq
  obtain ⟨k, hk, rfl⟩ := find?_mapNodes_eq_some hy
  obtain ⟨m, hm, rfl⟩ := find?_mapNodes_eq_some hq
  have hmem := h.mem_subtree_iff_of_hasParent hx hroot ⟨k, hk, hp⟩
  by_cases hpx : p ∈ a.subtree x
  · have hmd := h.not_document_of_mem_subtree hx hn hpx hm
    have howner : (if p ∈ a.subtree x then some d else m.owner) =
        if y ∈ a.subtree x then some d else k.owner := by rw [if_pos hpx, if_pos (hmem.2 hpx)]
    symm
    refine Eq.trans ?_ howner
    exact Node.document_eq_owner hmd
  · rw [if_neg hpx, if_neg (mt hmem.1 hpx)]
    exact ho hk hp hm

theorem OneOwner.drop (h : a.Forest) (ho : a.OneOwner) (xs : List NodeId) :
    (a.drop xs).OneOwner := by
  apply ho.of_old h
  · intro y j p hy hp
    exact ⟨j, (find?_drop_eq_some.1 hy).2, hp, rfl⟩
  · intro p m k hm hk
    rw [Option.eq_some_unique hm (find?_drop_eq_some.1 hk).2]

theorem OneOwner.unlinkAll (h : a.Forest) (ho : a.OneOwner) (xs : List NodeId) :
    (a.unlinkAll xs).OneOwner := by
  apply ho.of_old h
  · intro y _ p hy hp
    obtain ⟨j, hj, rfl⟩ := find?_mapNodes_eq_some hy
    dsimp only at hp
    split at hp
    · cases hp
    · exact ⟨j, hj, hp, rfl⟩
  · intro p m _ hm hk
    obtain ⟨j, hj, rfl⟩ := find?_mapNodes_eq_some hk
    obtain rfl := Option.eq_some_unique hm hj
    rfl

theorem OneOwner.link (ho : a.OneOwner) (hl : a.Linkable p x m n) (hd : n.owner = m.document)
    (ref : Option NodeId) : (a.link p x ref).OneOwner := by
  intro y q _ _ hy hq hz
  obtain ⟨k, hk, rfl⟩ := find?_mapNodes_eq_some hy
  obtain ⟨j, hj, rfl⟩ := find?_mapNodes_eq_some hz
  dsimp only at hq
  split at hq
  next hyx =>
    subst hyx
    obtain rfl := Option.some.inj hq
    obtain rfl := Option.eq_some_unique hl.node hk
    obtain rfl := Option.eq_some_unique hl.parent hj
    exact hd
  next =>
    have howner := ho hk hq hj
    exact howner

namespace WellFormed

variable (h : a.WellFormed)
include h

theorem oneOwner_change (ho : a.OneOwner) (hab : a.Change b) : b.OneOwner := by
  cases hab with
  | push _ => exact ho.push h.toForest _ _
  | setData hx hk => exact ho.setData h.toForest hx hk
  | own hx hroot hn _ _ => exact ho.own h hx hroot hn _
  | drop _ _ _ => exact ho.drop h.toForest _
  | unlinkAll xs => exact ho.unlinkAll h.toForest xs
  | link ref hl hd => exact ho.link hl hd ref

theorem document_eq_of_within (ho : a.OneOwner) (hr : a.find? r = some m)
    (hx : a.find? x = some n) (hrx : a.Within r x) : n.document = m.document := by
  refine h.ascend (P := fun x => ∀ n, a.find? x = some n → a.Within r x →
    n.document = m.document) ?_ ?_ hx n hx hrx
  · intro x k hx hk n hn hrx
    obtain rfl := Option.eq_some_unique hx hn
    rcases hrx with rfl | hrx
    · rw [Option.eq_some_unique hr hn]
    · exact absurd hrx (not_above_root hx hk)
  · intro x p hp ih n hn hrx
    rcases (h.within_iff_of_hasParent hp).1 hrx with rfl | hrp
    · rw [Option.eq_some_unique hr hn]
    · obtain ⟨k, hk, -⟩ := h.parent_live hp
      obtain ⟨j, hj, hjp⟩ := hp
      obtain rfl := Option.eq_some_unique hn hj
      rw [Node.document_eq_owner (h.not_document_of_hasParent hn hjp), ho hn hjp hk, ih k hk hrp]

theorem siblingElements_eq_children (ho : a.OneOwner) (hx : a.find? x = some n)
    (hp : n.parent = some p) : a.siblingElements x = a.children p := by
  have hxp : a.HasParent x p := ⟨n, hx, hp⟩
  obtain ⟨m, hm, -⟩ := h.parent_live hxp
  have hcount : m.isElement = true ∨ n.ownerDocument = some p := by
    cases he : m.isElement with
    | true => exact .inl rfl
    | false =>
      right
      obtain ⟨m', hm', hdoc⟩ := h.document_of_hasParent hxp ((isElementAt_eq hm).trans he)
      obtain rfl := Option.eq_some_unique hm hm'
      rw [Node.ownerDocument_eq_owner (h.not_document_of_hasParent hx hp), ho hx hp hm,
        Node.document_eq_self hdoc, h.id_eq hm]
  simp [siblingElements, get_eq_ok hx, hp, get_eq_ok hm, hcount]

end WellFormed

end Arena

end DocTree
