import DocTree.Proofs.Arena.WellFormed

namespace DocTree.Arena

variable {a : Arena} {x y p c d : NodeId} {n m : Node} {f : NodeId → Node → Node}
  {xs : List NodeId}

structure KeepsLinks (a : Arena) (f : NodeId → Node → Node) : Prop where
  id : ∀ {x n}, a.find? x = some n → (f x n).id = n.id
  parent : ∀ {x n}, a.find? x = some n → (f x n).parent = n.parent
  children : ∀ {x n}, a.find? x = some n → (f x n).children = n.children
  kind : ∀ {x n}, a.find? x = some n → (f x n).kind = n.kind

theorem find?_mapNodes_eq_some (h : (a.mapNodes f).find? x = some n) :
    ∃ m, a.find? x = some m ∧ f x m = n := by
  simpa using h

theorem find?_mapNodes_of_live (h : a.find? x = some n) :
    (a.mapNodes f).find? x = some (f x n) := by
  simp [h]

theorem hasParent_mapNodes_iff (hf : ∀ {x n}, a.find? x = some n → (f x n).parent = n.parent) :
    (a.mapNodes f).HasParent c p ↔ a.HasParent c p := by
  constructor
  · rintro ⟨n, hn, hp⟩
    obtain ⟨m, hm, rfl⟩ := find?_mapNodes_eq_some hn
    exact ⟨m, hm, (hf hm).symm.trans hp⟩
  · rintro ⟨n, hn, hp⟩
    exact ⟨_, find?_mapNodes_of_live hn, (hf hn).trans hp⟩

theorem hasChild_mapNodes_iff (hf : ∀ {x n}, a.find? x = some n → (f x n).children = n.children) :
    (a.mapNodes f).HasChild p c ↔ a.HasChild p c := by
  constructor
  · rintro ⟨n, hn, hp⟩
    obtain ⟨m, hm, rfl⟩ := find?_mapNodes_eq_some hn
    exact ⟨m, hm, hf hm ▸ hp⟩
  · rintro ⟨n, hn, hp⟩
    exact ⟨_, find?_mapNodes_of_live hn, (hf hn).symm ▸ hp⟩

theorem isElementAt_mapNodes (hf : ∀ {x n}, a.find? x = some n → (f x n).kind = n.kind)
    (x : NodeId) : (a.mapNodes f).isElementAt x = a.isElementAt x := by
  cases hx : a.find? x with
  | none => simp [isElementAt, hx]
  | some n => simp [isElementAt, hx, Node.isElement, hf hx]

theorem isDocument_congr {n m : Node} (h : n.kind = m.kind) : n.isDocument = m.isDocument := by
  simp [Node.isDocument, h]

theorem isComment_congr {n m : Node} (h : n.kind = m.kind) : n.isComment = m.isComment := by
  simp [Node.isComment, h]

theorem Forest.mapNodes (h : a.Forest) (hf : a.KeepsLinks f) : (a.mapNodes f).Forest where
  id_eq hx := by
    obtain ⟨m, hm, rfl⟩ := find?_mapNodes_eq_some hx
    rw [hf.id hm, h.id_eq hm]
  live_eq := by rw [live_mapNodes, length_nodes_mapNodes, h.live_eq]
  hasChild_iff {p c} := by
    rw [hasChild_mapNodes_iff hf.children, hasParent_mapNodes_iff hf.parent, h.hasChild_iff]
  children_nodup hx := by
    obtain ⟨m, hm, rfl⟩ := find?_mapNodes_eq_some hx
    rw [hf.children hm]
    exact h.children_nodup hm
  lineage hx := by
    obtain ⟨m, hm, rfl⟩ := find?_mapNodes_eq_some hx
    obtain ⟨ps, hps⟩ := h.lineage hm
    exact ⟨ps, hps.congr fun y _ n hy => ⟨_, find?_mapNodes_of_live hy, hf.parent hy⟩⟩

theorem WellFormed.mapNodes (h : a.WellFormed) (hf : a.KeepsLinks f)
    (howner : ∀ {x n}, a.find? x = some n → (f x n).owner = n.owner ∨
      n.isDocument = false ∧ ∃ d m, (f x n).owner = some d ∧ a.find? d = some m ∧
        m.isDocument = true) : (a.mapNodes f).WellFormed where
  toForest := h.toForest.mapNodes hf
  document_parent hx hd := by
    obtain ⟨m, hm, rfl⟩ := find?_mapNodes_eq_some hx
    rw [hf.parent hm]
    exact h.document_parent hm (isDocument_congr (hf.kind hm) ▸ hd)
  comment_children hx hc := by
    obtain ⟨m, hm, rfl⟩ := find?_mapNodes_eq_some hx
    rw [hf.children hm]
    exact h.comment_children hm (isComment_congr (hf.kind hm) ▸ hc)
  document_element hx hn hc hd hec hed := by
    obtain ⟨m, hm, rfl⟩ := find?_mapNodes_eq_some hx
    rw [hf.children hm] at hc hd
    rw [isElementAt_mapNodes hf.kind] at hec hed
    exact h.document_element hm (isDocument_congr (hf.kind hm) ▸ hn) hc hd hec hed
  document_owner hx hd := by
    obtain ⟨m, hm, rfl⟩ := find?_mapNodes_eq_some hx
    rw [isDocument_congr (hf.kind hm)] at hd
    rcases howner hm with ho | ⟨hnd, -⟩
    · rw [ho, h.document_owner hm hd]
    · simp [hnd] at hd
  owner_live {x _} hx hd := by
    obtain ⟨m, hm, rfl⟩ := find?_mapNodes_eq_some hx
    rw [isDocument_congr (hf.kind hm)] at hd
    have hlive : ∃ d k, (f x m).owner = some d ∧ a.find? d = some k ∧ k.isDocument = true := by
      rcases howner hm with ho | ⟨-, ho⟩
      · rw [ho]
        exact h.owner_live hm hd
      · exact ho
    obtain ⟨d, k, ho, hk, hdoc⟩ := hlive
    exact ⟨d, _, ho, find?_mapNodes_of_live hk, isDocument_congr (hf.kind hk) ▸ hdoc⟩

def own (a : Arena) (xs : List NodeId) (d : NodeId) : Arena :=
  a.mapNodes fun y n => { n with owner := if y ∈ xs then some d else n.owner }

theorem find?_own (a : Arena) (xs : List NodeId) (d y : NodeId) :
    (a.own xs d).find? y = (a.find? y).map fun n =>
      { n with owner := if y ∈ xs then some d else n.owner } :=
  find?_mapNodes ..

@[simp] theorem nextId_own (a : Arena) (xs : List NodeId) (d : NodeId) :
    (a.own xs d).nextId = a.nextId :=
  nextId_mapNodes ..

theorem own_congr {ys : List NodeId} (hxs : ∀ y, y ∈ xs ↔ y ∈ ys) : a.own xs d = a.own ys d :=
  mapNodes_congr fun y n _ => by simp only [hxs]

theorem update_own (a : Arena) (xs : List NodeId) (d x : NodeId) :
    (a.own xs d).update x ({ · with owner := some d }) = a.own (x :: xs) d := by
  rw [update_eq_mapNodes, own, mapNodes_mapNodes]
  apply mapNodes_congr
  intro y n _
  by_cases hxy : x = y
  · simp [hxy]
  · simp [hxy, Ne.symm hxy]

theorem own_eq_self (hxs : ∀ y ∈ xs, ∀ n, a.find? y = some n → n.owner = some d) :
    a.own xs d = a := by
  refine mapNodes_eq_self fun y n hy => ?_
  by_cases hmem : y ∈ xs
  · simp [hmem, ← hxs y hmem n hy]
  · simp [hmem]

theorem keepsLinks_own (a : Arena) (xs : List NodeId) (d : NodeId) :
    a.KeepsLinks fun y n => { n with owner := if y ∈ xs then some d else n.owner } :=
  ⟨fun _ => rfl, fun _ => rfl, fun _ => rfl, fun _ => rfl⟩

theorem isElementAt_own (a : Arena) (xs : List NodeId) (d y : NodeId) :
    (a.own xs d).isElementAt y = a.isElementAt y :=
  isElementAt_mapNodes (keepsLinks_own a xs d).kind y

theorem Lineage.own {ps : List NodeId} (h : a.Lineage y ps) (xs : List NodeId) (d : NodeId) :
    (a.own xs d).Lineage y ps :=
  h.congr fun _ _ _ hk => ⟨_, find?_mapNodes_of_live hk, rfl⟩

theorem WellFormed.own (h : a.WellFormed) (hd : a.find? d = some m) (hdoc : m.isDocument = true)
    (hxs : ∀ y ∈ xs, ∀ n, a.find? y = some n → n.isDocument = false) :
    (a.own xs d).WellFormed := by
  apply h.mapNodes (keepsLinks_own a xs d)
  intro x n hx
  by_cases hmem : x ∈ xs
  · exact .inr ⟨hxs x hmem n hx, d, m, if_pos hmem, hd, hdoc⟩
  · exact .inl (if_neg hmem)

theorem WellFormed.setData (h : a.WellFormed) (hx : a.find? x = some n) {data : NodeData}
    (hk : data.kind = n.kind) : (a.update x ({ · with data })).WellFormed := by
  rw [update_eq_mapNodes]
  refine h.mapNodes ⟨?_, ?_, ?_, ?_⟩ ?_
  · intro y m _
    split <;> rfl
  · intro y m _
    split <;> rfl
  · intro y m _
    split <;> rfl
  · intro y m hy
    split
    next heq =>
      subst heq
      obtain rfl := Option.eq_some_unique hx hy
      exact hk
    next => rfl
  · intro y m _
    left
    split <;> rfl

end DocTree.Arena
