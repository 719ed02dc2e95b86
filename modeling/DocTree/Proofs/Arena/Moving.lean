import DocTree.Proofs.Arena.Change

namespace DocTree.Arena

variable {a b : Arena} {x y p q c d : NodeId} {k m n : Node} {xs ys ps : List NodeId}
  {ref : Option NodeId}

def moved (a : Arena) (p x d : NodeId) (ref : Option NodeId) : Arena :=
  ((a.unlink x).own (a.subtree x) d).link p x ref

structure Admits (a : Arena) (p x : NodeId) (m n : Node) : Prop where
  parent : a.find? p = some m
  not_comment : m.isComment = false
  node : a.find? x = some n
  not_document : n.isDocument = false
  not_within : ¬ a.Within x p

def Spare (a : Arena) (m n : Node) : Prop :=
  m.isDocument = true → n.isElement = true → ∀ c ∈ m.children, a.isElementAt c = false

theorem Lineage.within_iff (h : a.Lineage p ps) : a.Within x p ↔ x ∈ p :: ps := by
  rw [List.mem_cons, Within, eq_comm]
  refine or_congr_right ⟨?_, fun hx => ⟨ps, h, hx⟩⟩
  rintro ⟨qs, hqs, hx⟩
  rwa [h.unique hqs]

theorem Lineage.within_congr (ha : a.Lineage p ps) (hb : b.Lineage p ps) :
    b.Within x p ↔ a.Within x p := by
  rw [hb.within_iff, ha.within_iff]

theorem Preorder.congr (h : a.Preorder xs ys)
    (hb : ∀ y ∈ ys, ∀ n, a.find? y = some n → ∃ m, b.find? y = some m ∧ m.children = n.children) :
    b.Preorder xs ys := by
  induction h with
  | nil => exact .nil
  | @cons x n ys xs zs hx _ _ ihc ihs =>
    obtain ⟨m, hm, hmc⟩ := hb x (by simp) n hx
    refine .cons hm ?_ (ihs fun y hy => hb y (by simp [hy]))
    rw [hmc]
    exact ihc fun y hy => hb y (by simp [hy])

namespace Forest

variable (h : a.Forest)
include h

theorem within_unlink_iff (hp : a.find? p = some m) (hcp : ¬ a.Within c p) :
    (a.unlink c).Within x p ↔ a.Within x p := by
  obtain ⟨ps, hps⟩ := h.lineage hp
  exact hps.within_congr (hps.unlink hcp)

theorem subtree_congr (hb : b.Forest) (hx : a.find? x = some n)
    (hchildren : ∀ y, a.Within x y → ∀ k, a.find? y = some k →
      ∃ j, b.find? y = some j ∧ j.children = k.children) : b.subtree x = a.subtree x := by
  obtain ⟨m, hm, -⟩ := hchildren x (.refl a x) n hx
  have hpre : b.Preorder [x] (a.subtree x) :=
    (h.preorder_spec hx).2.congr fun y hy => hchildren y ((h.mem_subtree_iff hx).1 hy)
  exact (hb.preorder_spec hm).2.unique hpre

theorem subtree_own (hx : a.find? x = some n) (d : NodeId) :
    (a.own ys d).subtree x = a.subtree x :=
  h.subtree_congr (h.mapNodes (keepsLinks_own a ys d)) hx fun _ _ _ hk =>
    ⟨_, find?_mapNodes_of_live hk, rfl⟩

theorem subtree_unlink (hx : a.find? x = some n) : (a.unlink x).subtree x = a.subtree x := by
  refine h.subtree_congr (h.unlink x) hx fun y hy k hk => ⟨_, find?_mapNodes_of_live hk, ?_⟩
  exact h.filter_children_eq_self hk fun hxy => h.not_within_of_hasParent hxy hy

end Forest

theorem find?_moved (a : Arena) (p x d : NodeId) (ref : Option NodeId) (y : NodeId) :
    (a.moved p x d ref).find? y = (a.find? y).map fun n =>
      { n with
        parent := if y = x then some p else n.parent
        children :=
          if y = p then Edit.insertInto x ref (n.children.filter (· != x))
          else n.children.filter (· != x)
        owner := if y ∈ a.subtree x then some d else n.owner } := by
  rw [moved, find?_link, find?_own, find?_unlink]
  cases a.find? y with
  | none => rfl
  | some n => by_cases hy : y = x <;> simp [hy]

theorem find?_moved_of_live (hy : a.find? y = some n) :
    (a.moved p x d ref).find? y = some
      { n with
        parent := if y = x then some p else n.parent
        children :=
          if y = p then Edit.insertInto x ref (n.children.filter (· != x))
          else n.children.filter (· != x)
        owner := if y ∈ a.subtree x then some d else n.owner } := by
  rw [find?_moved, hy]
  rfl

@[simp] theorem nextId_moved (a : Arena) (p x d : NodeId) (ref : Option NodeId) :
    (a.moved p x d ref).nextId = a.nextId := by
  simp [moved]

theorem isElementAt_moved (a : Arena) (p x d : NodeId) (ref : Option NodeId) (y : NodeId) :
    (a.moved p x d ref).isElementAt y = a.isElementAt y := by
  rw [moved, isElementAt_link, isElementAt_own, isElementAt_unlink]

theorem Lineage.moved (h : a.Lineage y ps) (hxy : ¬ a.Within x y) :
    (a.moved p x d ref).Lineage y ps := by
  have hown : ((a.unlink x).own (a.subtree x) d).Lineage y ps := (h.unlink hxy).own ..
  exact hown.link (mt (h.within_congr hown).1 hxy)

namespace WellFormed

variable (h : a.WellFormed)
include h

theorem document_live (hp : a.find? p = some m) :
    ∃ d k, m.document = some d ∧ a.find? d = some k ∧ k.isDocument = true := by
  cases hdoc : m.isDocument with
  | true => exact ⟨p, m, by simp [Node.document, hdoc, h.id_eq hp], hp, hdoc⟩
  | false =>
    obtain ⟨d, k, ho, hk, hkd⟩ := h.owner_live hp hdoc
    exact ⟨d, k, by simp [Node.document, hdoc, ho], hk, hkd⟩

/-- A moved node is taken from its parent, its subtree gets the document of the new parent, and it is
put there. -/
theorem changes_moved (hpx : a.Admits p x m n) (hs : a.Spare m n) (hd : m.document = some d)
    (ref : Option NodeId) : a.Changes (a.moved p x d ref) := by
  obtain ⟨d', k, hd', hk, hdoc⟩ := h.document_live hpx.parent
  obtain rfl := Option.eq_some_unique hd hd'
  obtain ⟨ps, hps⟩ := h.lineage hpx.parent
  have hunlinked : ((a.unlink x).own (a.subtree x) d).Lineage p ps :=
    (hps.unlink hpx.not_within).own ..
  have hfind : ∀ {y j}, a.find? y = some j → ((a.unlink x).own (a.subtree x) d).find? y = some
      { j with
        parent := if y = x then none else j.parent
        children := j.children.filter (· != x)
        owner := if y ∈ a.subtree x then some d else j.owner } := by
    intro y j hy
    rw [find?_own, find?_unlink, hy]
    rfl
  have hlink : Linkable ((a.unlink x).own (a.subtree x) d) p x _ _ :=
    { node := hfind hpx.node
      detached := if_pos rfl
      not_document := hpx.not_document
      parent := hfind hpx.parent
      not_comment := hpx.not_comment
      not_within := mt (hps.within_congr hunlinked).1 hpx.not_within
      single := by
        intro hmd hne c hc
        rw [isElementAt_own, isElementAt_unlink]
        exact hs hmd hne c (List.mem_of_mem_filter hc) }
  have hself : x ∈ a.subtree x := (h.mem_subtree_iff hpx.node).2 (.refl a x)
  have hout : p ∉ a.subtree x := mt (h.mem_subtree_iff hpx.node).1 hpx.not_within
  have hown : (a.unlink x).Change ((a.unlink x).own (a.subtree x) d) :=
    h.subtree_unlink hpx.node ▸ .own (find?_mapNodes_of_live hpx.node) (if_pos rfl)
      hpx.not_document (find?_mapNodes_of_live hk) hdoc
  refine ((Relation.ReflTransGen.single (change_unlink a x)).tail hown).tail (.link ref hlink ?_)
  rw [if_pos hself, if_neg hout]
  exact hd.symm

theorem moved (hpx : a.Admits p x m n) (hs : a.Spare m n) (hd : m.document = some d)
    (ref : Option NodeId) : (a.moved p x d ref).WellFormed :=
  h.of_changes (h.changes_moved hpx hs hd ref)

end WellFormed

def replaced (a : Arena) (p x c d : NodeId) : Arena :=
  a.mapNodes fun y n =>
    { n with
      parent := if y = c then none else if y = x then some p else n.parent
      children :=
        if y = p then (n.children.filter (· != x)).replace c x else n.children.filter (· != x)
      owner := if y ∈ a.subtree x then some d else n.owner }

theorem exists_insertInto_eq_replace (hys : ys.Nodup) (hc : c ∈ ys) :
    ∃ ref, (∀ r, ref = some r → r ∈ ys) ∧
      Edit.insertInto x ref (ys.filter (· != c)) = ys.replace c x := by
  induction ys with
  | nil => simp at hc
  | cons y ys ih =>
    obtain ⟨hy, hys⟩ := List.nodup_cons.1 hys
    by_cases hyc : y = c
    · subst hyc
      refine ⟨ys.head?, fun r hr => List.mem_cons_of_mem _ (List.mem_of_mem_head? hr), ?_⟩
      rw [← (List.nodup_cons.2 ⟨hy, hys⟩).erase_eq_filter, List.erase_cons_head,
        List.replace_cons_self]
      cases ys with
      | nil => rfl
      | cons z zs => simp [Edit.insertInto]
    · obtain ⟨ref, hmem, href⟩ := ih hys ((List.mem_cons.1 hc).resolve_left (Ne.symm hyc))
      refine ⟨ref, fun r hr => List.mem_cons_of_mem _ (hmem r hr), ?_⟩
      have hne : ref ≠ some y := fun hr => hy (hmem y hr)
      rw [List.filter_cons_of_pos (by simpa using hyc), Edit.insertInto, if_neg hne, href,
        List.replace_cons, beq_eq_false_iff_ne.2 (Ne.symm hyc)]

namespace Forest

variable (h : a.Forest)
include h

theorem subtree_unlink_child (hpx : a.Admits p x m n) (hc : a.HasParent c p) :
    (a.unlink c).subtree x = a.subtree x := by
  refine h.subtree_congr (h.unlink c) hpx.node fun y hy k hk =>
    ⟨_, find?_mapNodes_of_live hk, ?_⟩
  refine h.filter_children_eq_self hk fun hcy => ?_
  obtain rfl := hc.unique hcy
  exact hpx.not_within hy

theorem replaced_eq_moved (hpx : a.Admits p x m n) (hc : a.HasParent c p) (hxc : x ≠ c)
    (d : NodeId) : ∃ ref, a.replaced p x c d = (a.unlink c).moved p x d ref := by
  have hnodup : (m.children.filter (· != x)).Nodup := (h.children_nodup hpx.parent).filter _
  have hmem : c ∈ m.children.filter (· != x) :=
    List.mem_filter.2 ⟨(h.mem_children_iff hpx.parent).2 hc, by simpa using hxc.symm⟩
  obtain ⟨ref, -, href⟩ := exists_insertInto_eq_replace (x := x) hnodup hmem
  refine ⟨ref, ext_find? (by simp [replaced]) rfl fun y => ?_⟩
  rw [find?_moved, find?_unlink, h.subtree_unlink_child hpx hc, replaced, find?_mapNodes]
  cases hy : a.find? y with
  | none => rfl
  | some k =>
    simp only [Option.map_some, Option.some.injEq, Node.mk.injEq, true_and, and_true]
    constructor
    · by_cases hyc : y = c
      · rw [if_pos hyc, if_neg (fun hyx => hxc (hyx.symm.trans hyc)), if_pos hyc]
      · rw [if_neg hyc, if_neg hyc]
    · by_cases hyp : y = p
      · subst hyp
        obtain rfl := Option.eq_some_unique hpx.parent hy
        rw [if_pos rfl, if_pos rfl, List.filter_comm, href]
      · have hsame := h.filter_children_eq_self hy fun hcy => hyp (hcy.unique hc)
        rw [if_neg hyp, if_neg hyp, hsame]

end Forest

def SpareBut (a : Arena) (m n : Node) (c : NodeId) : Prop :=
  m.isDocument = true → n.isElement = true → ∀ e ∈ m.children, a.isElementAt e = true → e = c

theorem WellFormed.changes_replaced (h : a.WellFormed) (hpx : a.Admits p x m n)
    (hc : a.HasParent c p) (hs : a.SpareBut m n c) (hd : m.document = some d) (hxc : x ≠ c) :
    a.Changes (a.replaced p x c d) := by
  obtain ⟨ref, href⟩ := h.replaced_eq_moved hpx hc hxc d
  have hcp := h.not_within_of_hasParent hc
  have hadmits : (a.unlink c).Admits p x _ _ :=
    { parent := find?_mapNodes_of_live hpx.parent
      not_comment := hpx.not_comment
      node := find?_mapNodes_of_live hpx.node
      not_document := hpx.not_document
      not_within := mt (h.within_unlink_iff hpx.parent hcp).1 hpx.not_within }
  rw [href]
  refine .head (change_unlink a c) ((h.unlink c).changes_moved hadmits ?_ hd ref)
  intro hmd hne e he
  obtain ⟨hem, hec⟩ := List.mem_filter.1 he
  rw [isElementAt_unlink]
  by_contra hel
  exact (bne_iff_ne.1 hec) (hs hmd hne e hem (by simpa using hel))

end DocTree.Arena
