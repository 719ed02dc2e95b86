import DocTree.Arena.Insertion
import DocTree.Proofs.Arena.InPlace

namespace DocTree

namespace Edit

variable {x y : NodeId} {ref : Option NodeId} {ys : List NodeId}

theorem insertInto_perm (x : NodeId) (ref : Option NodeId) (ys : List NodeId) :
    (insertInto x ref ys).Perm (x :: ys) := by
  induction ys with
  | nil => exact .refl _
  | cons y ys ih =>
    rw [insertInto]
    split
    · exact .refl _
    · exact (ih.cons y).trans (.swap x y ys)

theorem insertInto_none (x : NodeId) (ys : List NodeId) : insertInto x none ys = ys ++ [x] := by
  induction ys with
  | nil => rfl
  | cons y ys ih => simp [insertInto, ih]

theorem mem_insertInto : y ∈ insertInto x ref ys ↔ y = x ∨ y ∈ ys := by
  rw [(insertInto_perm x ref ys).mem_iff, List.mem_cons]

theorem nodup_insertInto (hx : x ∉ ys) (hys : ys.Nodup) : (insertInto x ref ys).Nodup :=
  (insertInto_perm x ref ys).nodup_iff.2 (List.nodup_cons.2 ⟨hx, hys⟩)

end Edit

namespace Arena

variable {a : Arena} {x y p q r c d : NodeId} {n m : Node} {xs ps : List NodeId}
  {ref : Option NodeId}

def unlinkAll (a : Arena) (xs : List NodeId) : Arena :=
  a.mapNodes fun y n =>
    { n with
      parent := if y ∈ xs then none else n.parent
      children := n.children.filter (· ∉ xs) }

theorem find?_unlinkAll (a : Arena) (xs : List NodeId) (y : NodeId) :
    (a.unlinkAll xs).find? y = (a.find? y).map fun n =>
      { n with
        parent := if y ∈ xs then none else n.parent
        children := n.children.filter (· ∉ xs) } :=
  find?_mapNodes ..

theorem hasParent_unlinkAll : (a.unlinkAll xs).HasParent c p ↔ c ∉ xs ∧ a.HasParent c p := by
  simp only [HasParent, find?_unlinkAll, Option.map_eq_some_iff]
  constructor
  · rintro ⟨_, ⟨n, hn, rfl⟩, hp⟩
    by_cases hc : c ∈ xs
    · simp [hc] at hp
    · exact ⟨hc, n, hn, by simpa [hc] using hp⟩
  · rintro ⟨hc, n, hn, hp⟩
    exact ⟨_, ⟨n, hn, rfl⟩, by simpa [hc] using hp⟩

theorem hasChild_unlinkAll : (a.unlinkAll xs).HasChild p c ↔ c ∉ xs ∧ a.HasChild p c := by
  simp only [HasChild, find?_unlinkAll, Option.map_eq_some_iff]
  constructor
  · rintro ⟨_, ⟨n, hn, rfl⟩, hc⟩
    obtain ⟨hc, hne⟩ := List.mem_filter.1 hc
    exact ⟨by simpa using hne, n, hn, hc⟩
  · rintro ⟨hne, n, hn, hc⟩
    exact ⟨_, ⟨n, hn, rfl⟩, List.mem_filter.2 ⟨hc, by simpa using hne⟩⟩

theorem isElementAt_unlinkAll (a : Arena) (xs : List NodeId) (y : NodeId) :
    (a.unlinkAll xs).isElementAt y = a.isElementAt y :=
  isElementAt_mapNodes (by intros; rfl) y

theorem Forest.lineage_unlinkAll (h : a.Forest) (hy : a.find? y = some m) :
    ∃ ps, (a.unlinkAll xs).Lineage y ps := by
  refine h.ascend (P := fun y => ∃ ps, (a.unlinkAll xs).Lineage y ps) ?_ ?_ hy
  · intro y m hy hm
    refine ⟨[], .root (n := _) (by rw [find?_unlinkAll, hy]; rfl) ?_⟩
    simp [hm]
  · intro y p hp ih
    by_cases hyx : y ∈ xs
    · obtain ⟨m, hm, -⟩ := hp
      refine ⟨[], .root (n := _) (by rw [find?_unlinkAll, hm]; rfl) ?_⟩
      simp [hyx]
    · obtain ⟨ps, hps⟩ := ih
      exact ⟨p :: ps, .under (hasParent_unlinkAll.2 ⟨hyx, hp⟩) hps⟩

theorem Forest.unlinkAll (h : a.Forest) (xs : List NodeId) : (a.unlinkAll xs).Forest where
  id_eq hy := by
    obtain ⟨m, hm, rfl⟩ := find?_mapNodes_eq_some hy
    have hid := h.id_eq hm
    exact hid
  live_eq := by
    rw [Arena.unlinkAll, live_mapNodes, length_nodes_mapNodes, h.live_eq]
  hasChild_iff {p c} := by rw [hasChild_unlinkAll, hasParent_unlinkAll, h.hasChild_iff]
  children_nodup hy := by
    obtain ⟨m, hm, rfl⟩ := find?_mapNodes_eq_some hy
    exact (h.children_nodup hm).filter _
  lineage hy := by
    obtain ⟨m, hm, rfl⟩ := find?_mapNodes_eq_some hy
    exact h.lineage_unlinkAll hm

theorem WellFormed.unlinkAll (h : a.WellFormed) (xs : List NodeId) :
    (a.unlinkAll xs).WellFormed where
  toForest := h.toForest.unlinkAll xs
  document_parent hy hd := by
    obtain ⟨m, hm, rfl⟩ := find?_mapNodes_eq_some hy
    simp [h.document_parent hm hd]
  comment_children hy hc := by
    obtain ⟨m, hm, rfl⟩ := find?_mapNodes_eq_some hy
    simp [h.comment_children hm hc]
  document_element hy hn hc hd hec hed := by
    obtain ⟨m, hm, rfl⟩ := find?_mapNodes_eq_some hy
    rw [isElementAt_unlinkAll] at hec hed
    exact h.document_element hm hn (List.mem_of_mem_filter hc) (List.mem_of_mem_filter hd) hec hed
  document_owner hy hd := by
    obtain ⟨m, hm, rfl⟩ := find?_mapNodes_eq_some hy
    have howner := h.document_owner hm hd
    exact howner
  owner_live hy hd := by
    obtain ⟨m, hm, rfl⟩ := find?_mapNodes_eq_some hy
    obtain ⟨d, k, ho, hk, hdoc⟩ := h.owner_live hm hd
    exact ⟨d, _, ho, find?_mapNodes_of_live hk, hdoc⟩

theorem Lineage.unlinkAll (hy : a.Lineage y ps) (hxs : ∀ x ∈ xs, ¬ a.Within x y) :
    (a.unlinkAll xs).Lineage y ps := by
  refine hy.congr fun z hz k hk => ⟨_, find?_mapNodes_of_live hk, ?_⟩
  have hz : z ∉ xs := by
    intro hzx
    rcases List.mem_cons.1 hz with rfl | hz
    · exact hxs z hzx (.refl a z)
    · exact hxs z hzx (.inr ⟨ps, hy, hz⟩)
  simp [hz]

def unlink (a : Arena) (x : NodeId) : Arena :=
  a.mapNodes fun y n =>
    { n with parent := if y = x then none else n.parent, children := n.children.filter (· != x) }

theorem unlinkAll_singleton (a : Arena) (x : NodeId) : a.unlinkAll [x] = a.unlink x := by
  apply mapNodes_congr
  intro y n _
  simp [bne, beq_eq_decide]

theorem find?_unlink (a : Arena) (x y : NodeId) :
    (a.unlink x).find? y = (a.find? y).map fun n =>
      { n with
        parent := if y = x then none else n.parent
        children := n.children.filter (· != x) } :=
  find?_mapNodes ..

@[simp] theorem nextId_unlink (a : Arena) (x : NodeId) : (a.unlink x).nextId = a.nextId :=
  nextId_mapNodes ..

theorem isElementAt_unlink (a : Arena) (x y : NodeId) :
    (a.unlink x).isElementAt y = a.isElementAt y :=
  isElementAt_mapNodes (by intros; rfl) y

theorem Forest.unlink (h : a.Forest) (x : NodeId) : (a.unlink x).Forest :=
  unlinkAll_singleton a x ▸ h.unlinkAll [x]

theorem WellFormed.unlink (h : a.WellFormed) (x : NodeId) : (a.unlink x).WellFormed :=
  unlinkAll_singleton a x ▸ h.unlinkAll [x]

theorem Lineage.unlink (hy : a.Lineage y ps) (hxy : ¬ a.Within x y) :
    (a.unlink x).Lineage y ps := by
  rw [← unlinkAll_singleton]
  exact hy.unlinkAll (by simpa using hxy)

theorem Forest.unlink_eq_self (h : a.Forest) (hx : a.find? x = some n) (hn : n.parent = none) :
    a.unlink x = a := by
  apply mapNodes_eq_self
  intro y m hy
  have hparent : (if y = x then none else m.parent) = m.parent := by
    split
    next heq =>
      subst heq
      obtain rfl := Option.eq_some_unique hx hy
      exact hn.symm
    next => rfl
  have hchildren : m.children.filter (· != x) = m.children :=
    h.filter_children_eq_self hy fun hxy => hxy.ne_root hx hn
  rw [hparent, hchildren]

def link (a : Arena) (p x : NodeId) (ref : Option NodeId) : Arena :=
  a.mapNodes fun y n =>
    { n with
      parent := if y = x then some p else n.parent
      children := if y = p then Edit.insertInto x ref n.children else n.children }

structure Linkable (a : Arena) (p x : NodeId) (m n : Node) : Prop where
  node : a.find? x = some n
  detached : n.parent = none
  not_document : n.isDocument = false
  parent : a.find? p = some m
  not_comment : m.isComment = false
  not_within : ¬ a.Within x p
  single : m.isDocument = true → n.isElement = true → ∀ c ∈ m.children, a.isElementAt c = false

theorem find?_link (a : Arena) (p x : NodeId) (ref : Option NodeId) (y : NodeId) :
    (a.link p x ref).find? y = (a.find? y).map fun n =>
      { n with
        parent := if y = x then some p else n.parent
        children := if y = p then Edit.insertInto x ref n.children else n.children } :=
  find?_mapNodes ..

@[simp] theorem nextId_link (a : Arena) (p x : NodeId) (ref : Option NodeId) :
    (a.link p x ref).nextId = a.nextId :=
  nextId_mapNodes ..

theorem isElementAt_link (a : Arena) (p x : NodeId) (ref : Option NodeId) (y : NodeId) :
    (a.link p x ref).isElementAt y = a.isElementAt y :=
  isElementAt_mapNodes (by intros; rfl) y

theorem hasChild_link (hp : a.find? p = some m) :
    (a.link p x ref).HasChild q c ↔ a.HasChild q c ∨ c = x ∧ q = p := by
  simp only [HasChild, find?_link, Option.map_eq_some_iff]
  constructor
  · rintro ⟨_, ⟨n, hn, rfl⟩, hc⟩
    by_cases hq : q = p
    · rcases Edit.mem_insertInto.1 (by simpa [hq] using hc) with hc | hc
      · exact .inr ⟨hc, hq⟩
      · exact .inl ⟨n, hn, hc⟩
    · exact .inl ⟨n, hn, by simpa [hq] using hc⟩
  · rintro (⟨n, hn, hc⟩ | ⟨rfl, rfl⟩)
    · refine ⟨_, ⟨n, hn, rfl⟩, ?_⟩
      by_cases hq : q = p
      · simpa [hq] using Edit.mem_insertInto.2 (.inr hc)
      · simpa [hq] using hc
    · exact ⟨_, ⟨m, hp, rfl⟩, by simpa using Edit.mem_insertInto.2 (.inl rfl)⟩

theorem hasParent_link (hx : a.find? x = some n) (hn : n.parent = none) :
    (a.link p x ref).HasParent c q ↔ a.HasParent c q ∨ c = x ∧ q = p := by
  simp only [HasParent, find?_link, Option.map_eq_some_iff]
  constructor
  · rintro ⟨_, ⟨k, hk, rfl⟩, hp⟩
    by_cases hc : c = x
    · exact .inr ⟨hc, by simpa [hc, eq_comm] using hp⟩
    · exact .inl ⟨k, hk, by simpa [hc] using hp⟩
  · rintro (⟨k, hk, hp⟩ | ⟨rfl, rfl⟩)
    · have hc : c ≠ x := by
        rintro rfl
        exact HasParent.ne_root ⟨k, hk, hp⟩ hx hn
      exact ⟨_, ⟨k, hk, rfl⟩, by simpa [hc] using hp⟩
    · exact ⟨_, ⟨n, hx, rfl⟩, by simp⟩

theorem Lineage.link (hy : a.Lineage y ps) (hxy : ¬ a.Within x y) :
    (a.link p x ref).Lineage y ps := by
  refine hy.congr fun z hz k hk => ⟨_, find?_mapNodes_of_live hk, ?_⟩
  have hzx : z ≠ x := by
    rintro rfl
    rcases List.mem_cons.1 hz with rfl | hz
    · exact hxy (.refl a z)
    · exact hxy (.inr ⟨ps, hy, hz⟩)
  simp [hzx]

theorem Forest.lineage_link (h : a.Forest) (hl : a.Linkable p x m n) {k : Node}
    (hy : a.find? y = some k) : ∃ ps, (a.link p x ref).Lineage y ps := by
  obtain ⟨ps, hps⟩ := h.lineage hl.parent
  have hx : (a.link p x ref).Lineage x (p :: ps) :=
    .under ((hasParent_link hl.node hl.detached).2 (.inr ⟨rfl, rfl⟩)) (hps.link hl.not_within)
  refine h.ascend (P := fun y => ∃ ps, (a.link p x ref).Lineage y ps) ?_ ?_ hy
  · intro y k hy hk
    by_cases hyx : y = x
    · rw [hyx]
      exact ⟨_, hx⟩
    · exact ⟨[], .root (find?_mapNodes_of_live hy) (by simpa [hyx] using hk)⟩
  · intro y q hq ih
    obtain ⟨qs, hqs⟩ := ih
    exact ⟨q :: qs, .under ((hasParent_link hl.node hl.detached).2 (.inl hq)) hqs⟩

theorem Forest.link (h : a.Forest) (hl : a.Linkable p x m n) (ref : Option NodeId) :
    (a.link p x ref).Forest where
  id_eq hy := by
    obtain ⟨k, hk, rfl⟩ := find?_mapNodes_eq_some hy
    have hid := h.id_eq hk
    exact hid
  live_eq := by
    rw [Arena.link, live_mapNodes, length_nodes_mapNodes, h.live_eq]
  hasChild_iff {q c} := by
    rw [hasChild_link hl.parent, hasParent_link hl.node hl.detached, h.hasChild_iff]
  children_nodup {y _} hy := by
    obtain ⟨k, hk, rfl⟩ := find?_mapNodes_eq_some hy
    have hnodup := h.children_nodup hk
    have hx : x ∉ k.children := fun hmem =>
      (h.hasParent_of_mem hk hmem).ne_root hl.node hl.detached
    by_cases hyp : y = p
    · simpa [hyp] using Edit.nodup_insertInto hx hnodup
    · simpa [hyp] using hnodup
  lineage hy := by
    obtain ⟨k, hk, rfl⟩ := find?_mapNodes_eq_some hy
    exact h.lineage_link hl hk

theorem WellFormed.link (h : a.WellFormed) (hl : a.Linkable p x m n) (ref : Option NodeId) :
    (a.link p x ref).WellFormed where
  toForest := h.toForest.link hl ref
  document_parent {y _} hy hd := by
    obtain ⟨k, hk, rfl⟩ := find?_mapNodes_eq_some hy
    have hyx : y ≠ x := by
      rintro rfl
      obtain rfl := Option.eq_some_unique hl.node hk
      exact Bool.false_ne_true (hl.not_document.symm.trans hd)
    simpa [hyx] using h.document_parent hk hd
  comment_children {y _} hy hc := by
    obtain ⟨k, hk, rfl⟩ := find?_mapNodes_eq_some hy
    have hyp : y ≠ p := by
      rintro rfl
      obtain rfl := Option.eq_some_unique hl.parent hk
      exact Bool.false_ne_true (hl.not_comment.symm.trans hc)
    simpa [hyp] using h.comment_children hk hc
  document_element {y _ c d} hy hdoc hc hd hec hed := by
    obtain ⟨k, hk, rfl⟩ := find?_mapNodes_eq_some hy
    rw [isElementAt_link] at hec hed
    by_cases hyp : y = p
    · subst hyp
      obtain rfl := Option.eq_some_unique hl.parent hk
      have hsingle : a.isElementAt x = true → ∀ c ∈ m.children, a.isElementAt c = false :=
        fun he => hl.single hdoc (isElementAt_eq hl.node ▸ he)
      simp only [if_true, Edit.mem_insertInto] at hc hd
      rcases hc with rfl | hc <;> rcases hd with rfl | hd
      · rfl
      · simp [hsingle hec d hd] at hed
      · simp [hsingle hed c hc] at hec
      · exact h.document_element hk hdoc hc hd hec hed
    · simp only [hyp, if_false] at hc hd
      exact h.document_element hk hdoc hc hd hec hed
  document_owner hy hd := by
    obtain ⟨k, hk, rfl⟩ := find?_mapNodes_eq_some hy
    have howner := h.document_owner hk hd
    exact howner
  owner_live hy hd := by
    obtain ⟨k, hk, rfl⟩ := find?_mapNodes_eq_some hy
    obtain ⟨d, j, ho, hj, hdoc⟩ := h.owner_live hk hd
    exact ⟨d, _, ho, find?_mapNodes_of_live hj, hdoc⟩

@[simp] theorem nextId_drop (a : Arena) (xs : List NodeId) : (a.drop xs).nextId = a.nextId := by
  simp only [nextId, drop]
  generalize a.slots = slots
  induction xs generalizing slots with
  | nil => rfl
  | cons x xs ih => exact (ih _).trans (by simp)

theorem find?_drop_eq_some : (a.drop xs).find? y = some n ↔ y ∉ xs ∧ a.find? y = some n := by
  rw [find?_drop]
  split <;> simp_all

theorem length_nodes_drop (hxs : xs.Nodup) (hlive : ∀ x ∈ xs, a.isLive x = true) :
    (a.drop xs).nodes.length + xs.length = a.nodes.length := by
  have hperm : ((List.range a.nextId).filter fun x => a.isLive x && xs.contains x).Perm xs := by
    apply (List.perm_ext_iff_of_nodup (List.nodup_range.filter _) hxs).2
    intro x
    simp only [List.mem_filter, List.mem_range, Bool.and_eq_true, List.contains_iff_mem]
    constructor
    · exact fun hx => hx.2.2
    · intro hx
      obtain ⟨n, hn⟩ := Option.isSome_iff_exists.1 (hlive x hx)
      exact ⟨find?_lt hn, hlive x hx, hx⟩
  have hdrop : ∀ x, (a.drop xs).isLive x = (a.isLive x && !xs.contains x) := by
    intro x
    rw [isLive, find?_drop]
    by_cases hx : x ∈ xs <;> simp [isLive, hx]
  symm
  rw [length_nodes, length_nodes, nextId_drop, ← hperm.length_eq, ← List.countP_eq_length_filter]
  rw [funext hdrop, List.countP_eq_countP_filter_add _ _ xs.contains, Nat.add_comm]
  simp only [List.countP_filter]

theorem hasChild_drop : (a.drop xs).HasChild p c ↔ p ∉ xs ∧ a.HasChild p c := by
  simp only [HasChild, find?_drop_eq_some, and_assoc, exists_and_left]

theorem hasParent_drop : (a.drop xs).HasParent c p ↔ c ∉ xs ∧ a.HasParent c p := by
  simp only [HasParent, find?_drop_eq_some, and_assoc, exists_and_left]

theorem isElementAt_drop (hx : x ∉ xs) : (a.drop xs).isElementAt x = a.isElementAt x := by
  rw [isElementAt, find?_drop, if_neg hx, isElementAt]

theorem Forest.mem_subtree_iff_of_hasParent (h : a.Forest) (hx : a.find? x = some n)
    (hn : n.parent = none) (hc : a.HasParent c p) : c ∈ a.subtree x ↔ p ∈ a.subtree x := by
  rw [h.mem_subtree_iff hx, h.mem_subtree_iff hx, h.within_iff_of_hasParent hc]
  constructor
  · rintro (rfl | hp)
    · exact absurd hn (hc.ne_root hx)
    · exact hp
  · exact .inr

theorem Forest.drop (h : a.Forest) (hx : a.find? x = some n) (hn : n.parent = none) :
    (a.drop (a.subtree x)).Forest where
  id_eq hy := h.id_eq (find?_drop_eq_some.1 hy).2
  live_eq := by
    have hlive : ∀ y ∈ a.subtree x, a.isLive y = true := fun y hy =>
      Option.isSome_iff_exists.2 (h.live_of_mem_subtree hx y hy)
    refine Nat.sub_eq_of_eq_add ?_
    rw [length_nodes_drop (h.nodup_subtree hx) hlive, h.live_eq]
  hasChild_iff {p c} := by
    rw [hasChild_drop, hasParent_drop, h.hasChild_iff]
    exact and_congr_left fun hc => not_congr (h.mem_subtree_iff_of_hasParent hx hn hc).symm
  children_nodup hy := h.children_nodup (find?_drop_eq_some.1 hy).2
  lineage {y m} hy := by
    obtain ⟨hmem, hy⟩ := find?_drop_eq_some.1 hy
    revert hmem
    refine h.ascend (P := fun y => y ∉ a.subtree x → ∃ ps, (a.drop (a.subtree x)).Lineage y ps)
      ?_ ?_ hy
    · intro y m hy hm hmem
      exact ⟨[], .root (find?_drop_eq_some.2 ⟨hmem, hy⟩) hm⟩
    · intro y p hp ih hmem
      obtain ⟨ps, hps⟩ := ih ((not_congr (h.mem_subtree_iff_of_hasParent hx hn hp)).1 hmem)
      exact ⟨p :: ps, .under (hasParent_drop.2 ⟨hmem, hp⟩) hps⟩

theorem WellFormed.drop (h : a.WellFormed) (hx : a.find? x = some n) (hn : n.parent = none)
    (howns : n.isDocument = true → ∀ y m, a.find? y = some m → m.owner = some x →
      y ∈ a.subtree x) : (a.drop (a.subtree x)).WellFormed where
  toForest := h.toForest.drop hx hn
  document_parent hy := h.document_parent (find?_drop_eq_some.1 hy).2
  comment_children hy := h.comment_children (find?_drop_eq_some.1 hy).2
  document_element hy hdoc hc hd hec hed := by
    obtain ⟨hmem, hy⟩ := find?_drop_eq_some.1 hy
    have hout : ∀ c, a.HasParent c _ → c ∉ a.subtree x := fun c hc =>
      (not_congr (h.mem_subtree_iff_of_hasParent hx hn hc)).2 hmem
    rw [isElementAt_drop (hout _ (h.hasParent_of_mem hy hc))] at hec
    rw [isElementAt_drop (hout _ (h.hasParent_of_mem hy hd))] at hed
    exact h.document_element hy hdoc hc hd hec hed
  document_owner hy := h.document_owner (find?_drop_eq_some.1 hy).2
  owner_live {y m} hy hd := by
    obtain ⟨hmem, hlive⟩ := find?_drop_eq_some.1 hy
    obtain ⟨d, k, ho, hk, hdoc⟩ := h.owner_live hlive hd
    refine ⟨d, k, ho, find?_drop_eq_some.2 ⟨?_, hk⟩, hdoc⟩
    intro hdmem
    rcases (h.mem_subtree_iff hx).1 hdmem with rfl | hxd
    · obtain rfl := Option.eq_some_unique hx hk
      exact hmem (howns hdoc y m hlive ho)
    · exact Bool.false_ne_true ((h.not_document_of_above hxd hk).symm.trans hdoc)

end Arena

end DocTree
