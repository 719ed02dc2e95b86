import DocTree.Proofs.Arena.WellFormed

namespace DocTree.Arena

variable {a : Arena} {x y p q : NodeId} {m n : Node} {ps before after ys : List NodeId}

theorem idxOf?_split (hx : x ∉ before) (after : List NodeId) :
    (before ++ x :: after).idxOf? x = some before.length := by
  induction before with
  | nil => simp [List.idxOf?_cons]
  | cons y ys ih =>
    rw [List.mem_cons, not_or] at hx
    rw [List.cons_append, List.idxOf?_cons, if_neg (by simpa using Ne.symm hx.1), ih hx.2]
    rfl

theorem Forest.exists_split (h : a.Forest) (hx : a.HasParent x p) :
    ∃ m before after, a.find? p = some m ∧ m.children = before ++ x :: after := by
  obtain ⟨m, hm, hmem⟩ := h.parent_live hx
  obtain ⟨before, after, hsplit⟩ := List.append_of_mem hmem
  exact ⟨m, before, after, hm, hsplit⟩

theorem Forest.notMem_of_split (h : a.Forest) (hp : a.find? p = some m)
    (hsplit : m.children = before ++ x :: after) : x ∉ before ∧ x ∉ after := by
  have hnodup := h.children_nodup hp
  rw [hsplit, List.nodup_append] at hnodup
  obtain ⟨-, hafter, hdisjoint⟩ := hnodup
  exact ⟨fun hx => hdisjoint x hx x (by simp) rfl, (List.nodup_cons.1 hafter).1⟩

theorem around_root (hx : a.find? x = some n) (hn : n.parent = none) :
    a.around x = .ok ([], []) := by
  simp [around, get_eq_ok hx, hn]

theorem Forest.around_eq (h : a.Forest) (hx : a.HasParent x p) (hp : a.find? p = some m)
    (hsplit : m.children = before ++ x :: after) : a.around x = .ok (before.reverse, after) := by
  obtain ⟨n, hn, hnp⟩ := hx
  have hindex := idxOf?_split (h.notMem_of_split hp hsplit).1 after
  simp [around, get_eq_ok hn, hnp, get_eq_ok hp, hsplit, hindex]

theorem Forest.earlierElements_eq (h : a.Forest) (hx : a.HasParent x p) (hp : a.find? p = some m)
    (hsplit : m.children = before ++ x :: after) :
    a.earlierElements x = .ok (before.reverse.filter a.isElementAt) := by
  rw [earlierElements, h.around_eq hx hp hsplit]
  exact elementsOf_eq fun y hy => h.child_live hp y (by simp_all)

theorem Forest.laterElements_eq (h : a.Forest) (hx : a.HasParent x p) (hp : a.find? p = some m)
    (hsplit : m.children = before ++ x :: after) :
    a.laterElements x = .ok (after.filter a.isElementAt) := by
  rw [laterElements, h.around_eq hx hp hsplit]
  exact elementsOf_eq fun y hy => h.child_live hp y (by simp_all)

theorem parentElement_root (hx : a.find? x = some n) (hn : n.parent = none) :
    a.parentElement x = .ok none := by
  simp [parentElement, get_eq_ok hx, hn]

theorem Forest.parentElement_eq (h : a.Forest) (hx : a.HasParent x p) :
    a.parentElement x = .ok (if a.isElementAt p then some p else none) := by
  obtain ⟨n, hn, hp⟩ := id hx
  obtain ⟨m, hm, -⟩ := h.parent_live hx
  simp [parentElement, get_eq_ok hn, hp, get_eq_ok hm, isElementAt_eq hm]

theorem eq_element_or_comment_or_document (n : Node) :
    n.isElement = true ∨ n.isComment = true ∨ n.isDocument = true := by
  cases hn : n.kind <;> simp [Node.isElement, Node.isComment, Node.isDocument, hn]

theorem WellFormed.document_of_hasParent (h : a.WellFormed) (hx : a.HasParent x p)
    (hp : a.isElementAt p = false) : ∃ m, a.find? p = some m ∧ m.isDocument = true := by
  obtain ⟨m, hm, -⟩ := h.parent_live hx
  rw [isElementAt_eq hm] at hp
  have hcomment := h.not_comment_of_hasParent hx hm
  rcases eq_element_or_comment_or_document m with he | hc | hd
  · simp [he] at hp
  · simp [hcomment] at hc
  · exact ⟨m, hm, hd⟩

theorem WellFormed.climb_parentElement (h : a.WellFormed) (hx : a.Lineage x ps) {fuel : Nat}
    (hf : ps.length < fuel) : climb a.parentElement fuel x = .ok (ps.filter a.isElementAt) := by
  induction hx generalizing fuel with
  | root hx hn =>
    cases fuel with
    | zero => simp at hf
    | succ fuel => simp [climb, parentElement_root hx hn]
  | @under x p ps hp hps ih =>
    cases fuel with
    | zero => simp at hf
    | succ fuel =>
      cases he : a.isElementAt p with
      | true =>
        simp [climb, h.parentElement_eq hp, he, ih (Nat.lt_of_succ_lt_succ hf)]
      | false =>
        obtain ⟨m, hm, hdoc⟩ := h.document_of_hasParent hp he
        obtain rfl := hps.unique (.root hm (h.document_parent hm hdoc))
        simp [climb, h.parentElement_eq hp, he]

theorem WellFormed.ancestorElements_eq (h : a.WellFormed) (hx : a.Lineage x ps) :
    a.ancestorElements x = .ok (ps.filter a.isElementAt) :=
  h.climb_parentElement hx (Nat.lt_succ_of_lt hx.length_lt)

/-- `ys` are the element children of the parent of `x`, which is an element or the owner of `x`. -/
def Among (a : Arena) (x : NodeId) (ys : List NodeId) : Prop :=
  ∃ n p m, a.find? x = some n ∧ n.parent = some p ∧ a.find? p = some m ∧
    (m.isElement = true ∨ n.ownerDocument = some p) ∧ ys = m.children.filter a.isElementAt

theorem Forest.siblingElements_eq (h : a.Forest) (hx : a.find? x = some n) :
    ∃ ys, a.siblingElements x = .ok ys ∧ (a.Among x ys ∨ ys = [] ∧ ∀ zs, ¬ a.Among x zs) := by
  cases hp : n.parent with
  | none =>
    refine ⟨[], by simp [siblingElements, get_eq_ok hx, hp], .inr ⟨rfl, ?_⟩⟩
    rintro zs ⟨n', p, m, hn', hp', -⟩
    simp_all
  | some p =>
    obtain ⟨m, hm, -⟩ := h.parent_live ⟨n, hx, hp⟩
    by_cases hcount : m.isElement = true ∨ n.ownerDocument = some p
    · refine ⟨_, ?_, .inl ⟨n, p, m, hx, hp, hm, hcount, rfl⟩⟩
      simp [siblingElements, get_eq_ok hx, hp, get_eq_ok hm, hcount, h.children_eq hm]
    · refine ⟨[], by simp [siblingElements, get_eq_ok hx, hp, get_eq_ok hm, hcount], .inr ⟨rfl, ?_⟩⟩
      rintro zs ⟨n', p', m', hn', hp', hm', hcount', -⟩
      simp_all

end DocTree.Arena
