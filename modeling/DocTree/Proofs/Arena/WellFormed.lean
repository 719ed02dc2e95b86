import DocTree.Proofs.Arena.Subtree

namespace DocTree.Arena

structure WellFormed (a : Arena) : Prop extends Forest a where
  document_parent : ∀ {x n}, a.find? x = some n → n.isDocument = true → n.parent = none
  comment_children : ∀ {x n}, a.find? x = some n → n.isComment = true → n.children = []
  document_element : ∀ {x n c d}, a.find? x = some n → n.isDocument = true →
    c ∈ n.children → d ∈ n.children → a.isElementAt c = true → a.isElementAt d = true → c = d
  document_owner : ∀ {x n}, a.find? x = some n → n.isDocument = true → n.owner = none
  owner_live : ∀ {x n}, a.find? x = some n → n.isDocument = false →
    ∃ d m, n.owner = some d ∧ a.find? d = some m ∧ m.isDocument = true

variable {a b : Arena} {x y p c d : NodeId} {n m : Node} {f : NodeId → Node → Node}
  {owner : Option NodeId} {data : NodeData} {xs : List NodeId}

theorem wellFormed_empty : empty.WellFormed where
  id_eq h := by simp at h
  live_eq := rfl
  hasChild_iff := by simp [HasChild, HasParent]
  children_nodup h := by simp at h
  lineage h := by simp at h
  document_parent h := by simp at h
  comment_children h := by simp at h
  document_element h := by simp at h
  document_owner h := by simp at h
  owner_live h := by simp at h

theorem WellFormed.not_document_of_above (h : a.WellFormed) (hxy : a.Above x y)
    (hy : a.find? y = some n) : n.isDocument = false := by
  cases hd : n.isDocument with
  | false => rfl
  | true => exact absurd hxy (not_above_root hy (h.document_parent hy hd))

theorem WellFormed.not_document_of_hasParent (h : a.WellFormed) (hx : a.find? x = some n)
    (hp : n.parent = some p) : n.isDocument = false := by
  cases hn : n.isDocument with
  | false => rfl
  | true => exact absurd ((h.document_parent hx hn).symm.trans hp) nofun

theorem WellFormed.not_comment_of_hasParent (h : a.WellFormed) (hx : a.HasParent x p)
    (hp : a.find? p = some m) : m.isComment = false := by
  by_contra hm
  have hmem := (h.mem_children_iff hp).2 hx
  rw [h.comment_children hp (by simpa using hm)] at hmem
  exact List.not_mem_nil hmem

theorem WellFormed.length_elements_le (h : a.WellFormed) (hp : a.find? p = some m)
    (hdoc : m.isDocument = true) : (m.children.filter a.isElementAt).length ≤ 1 := by
  have hnodup : (m.children.filter a.isElementAt).Nodup := (h.children_nodup hp).filter _
  have heq : ∀ c ∈ m.children.filter a.isElementAt, ∀ d ∈ m.children.filter a.isElementAt,
      c = d := by
    intro c hc d hd
    obtain ⟨hc, hce⟩ := List.mem_filter.1 hc
    obtain ⟨hd, hde⟩ := List.mem_filter.1 hd
    exact h.document_element hp hdoc hc hd hce hde
  rcases hlist : m.children.filter a.isElementAt with _ | ⟨c, _ | ⟨d, cs⟩⟩
  · simp
  · simp
  · rw [hlist] at hnodup heq
    simp [heq c (by simp) d (by simp)] at hnodup

theorem WellFormed.child_not_document (h : a.WellFormed) (hp : a.find? p = some m) :
    ∀ c ∈ m.children, ∃ n, a.find? c = some n ∧ n.isDocument = false := by
  intro c hc
  obtain ⟨n, hn, hcp⟩ := h.hasParent_of_mem hp hc
  exact ⟨n, hn, h.not_document_of_hasParent hn hcp⟩

theorem find?_push_of_live (hx : a.find? x = some n) : (a.push owner data).find? x = some n := by
  rw [find?_push, if_neg (Nat.ne_of_lt (find?_lt hx)), hx]

theorem find?_push_self (a : Arena) (owner : Option NodeId) (data : NodeData) :
    (a.push owner data).find? a.nextId = some (.detached a.nextId owner data) := by
  rw [find?_push, if_pos rfl]

theorem find?_push_eq_some (h : (a.push owner data).find? x = some n) :
    a.find? x = some n ∨ x = a.nextId ∧ n = .detached a.nextId owner data := by
  rw [find?_push] at h
  split at h
  next hx => exact .inr ⟨hx, (Option.some.inj h).symm⟩
  next => exact .inl h

theorem hasChild_push : (a.push owner data).HasChild p c ↔ a.HasChild p c := by
  constructor
  · rintro ⟨n, hn, hc⟩
    rcases find?_push_eq_some hn with hn | ⟨-, rfl⟩
    · exact ⟨n, hn, hc⟩
    · simp [Node.detached] at hc
  · rintro ⟨n, hn, hc⟩
    exact ⟨n, find?_push_of_live hn, hc⟩

theorem hasParent_push : (a.push owner data).HasParent c p ↔ a.HasParent c p := by
  constructor
  · rintro ⟨n, hn, hp⟩
    rcases find?_push_eq_some hn with hn | ⟨-, rfl⟩
    · exact ⟨n, hn, hp⟩
    · simp [Node.detached] at hp
  · rintro ⟨n, hn, hp⟩
    exact ⟨n, find?_push_of_live hn, hp⟩

theorem isElementAt_push_of_live (hx : a.find? x = some n) :
    (a.push owner data).isElementAt x = a.isElementAt x := by
  rw [isElementAt_eq hx, isElementAt_eq (find?_push_of_live hx)]

theorem nodes_push (a : Arena) (owner : Option NodeId) (data : NodeData) :
    (a.push owner data).nodes = a.nodes ++ [.detached a.nextId owner data] := by
  simp [nodes, push]

@[simp] theorem nextId_push (a : Arena) (owner : Option NodeId) (data : NodeData) :
    (a.push owner data).nextId = a.nextId + 1 := by
  simp [push, nextId]

namespace Forest

theorem push (h : a.Forest) (owner : Option NodeId) (data : NodeData) :
    (a.push owner data).Forest where
  id_eq hx := by
    rcases find?_push_eq_some hx with hx | ⟨rfl, rfl⟩
    · exact h.id_eq hx
    · rfl
  live_eq := by
    rw [nodes_push, List.length_append, ← h.live_eq]
    rfl
  hasChild_iff {p c} := by rw [hasChild_push, hasParent_push, h.hasChild_iff]
  children_nodup hx := by
    rcases find?_push_eq_some hx with hx | ⟨rfl, rfl⟩
    · exact h.children_nodup hx
    · exact .nil
  lineage hx := by
    rcases find?_push_eq_some hx with hx | ⟨rfl, rfl⟩
    · obtain ⟨ps, hps⟩ := h.lineage hx
      exact ⟨ps, hps.congr fun y _ n hy => ⟨n, find?_push_of_live hy, rfl⟩⟩
    · exact ⟨[], .root (find?_push_self a owner data) rfl⟩

end Forest

/-- What a new node must be: a document of no owner, or another node owned by a live document. -/
def MayOwn (a : Arena) (owner : Option NodeId) (data : NodeData) : Prop :=
  match owner with
  | none => data.kind = .document
  | some d => data.kind ≠ .document ∧ ∃ m, a.find? d = some m ∧ m.isDocument = true

theorem WellFormed.mayOwn (h : a.WellFormed) (hx : a.find? x = some n) :
    a.MayOwn n.owner n.data := by
  cases hdoc : n.isDocument with
  | true =>
    have hk : n.data.kind = .document := of_decide_eq_true hdoc
    rw [h.document_owner hx hdoc]
    exact hk
  | false =>
    obtain ⟨d, m, ho, hm, hmd⟩ := h.owner_live hx hdoc
    rw [ho]
    exact ⟨of_decide_eq_false hdoc, m, hm, hmd⟩

theorem MayOwn.mono (hown : a.MayOwn owner data)
    (hb : ∀ {y n}, a.find? y = some n → b.find? y = some n) : b.MayOwn owner data := by
  cases owner with
  | none => exact hown
  | some d =>
    obtain ⟨hk, m, hm, hdoc⟩ := hown
    exact ⟨hk, m, hb hm, hdoc⟩

theorem WellFormed.push (h : a.WellFormed) (hown : a.MayOwn owner data) :
    (a.push owner data).WellFormed where
  toForest := h.toForest.push owner data
  document_parent hx hd := by
    rcases find?_push_eq_some hx with hx | ⟨rfl, rfl⟩
    · exact h.document_parent hx hd
    · rfl
  comment_children hx hc := by
    rcases find?_push_eq_some hx with hx | ⟨rfl, rfl⟩
    · exact h.comment_children hx hc
    · rfl
  document_element hx hn hc hd hec hed := by
    rcases find?_push_eq_some hx with hx | ⟨rfl, rfl⟩
    · obtain ⟨_, hcl⟩ := h.child_live hx _ hc
      obtain ⟨_, hdl⟩ := h.child_live hx _ hd
      rw [isElementAt_push_of_live hcl] at hec
      rw [isElementAt_push_of_live hdl] at hed
      exact h.document_element hx hn hc hd hec hed
    · simp [Node.detached] at hc
  document_owner hx hd := by
    rcases find?_push_eq_some hx with hx | ⟨rfl, rfl⟩
    · exact h.document_owner hx hd
    · cases owner with
      | none => rfl
      | some d => exact absurd (of_decide_eq_true hd) hown.1
  owner_live hx hd := by
    rcases find?_push_eq_some hx with hx | ⟨rfl, rfl⟩
    · obtain ⟨d, m, ho, hm, hdoc⟩ := h.owner_live hx hd
      exact ⟨d, m, ho, find?_push_of_live hm, hdoc⟩
    · cases owner with
      | none => simp [Node.isDocument, Node.kind, Node.detached, show data.kind = _ from hown] at hd
      | some d =>
        obtain ⟨-, m, hm, hdoc⟩ := hown
        exact ⟨d, m, rfl, find?_push_of_live hm, hdoc⟩

end DocTree.Arena
