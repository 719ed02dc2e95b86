import DocTree.Proofs.Arena.Moving
import DocTree.Proofs.Arena.Siblings

/-! Arenas as they are without their comments.  Comments are leaves, so what is above, beside and
below the other nodes can be told without them. -/

namespace DocTree.Arena

/-- The node as it is without comments: it is none, and only its element children are kept. -/
def bare? (a : Arena) (x : NodeId) : Option Node :=
  (a.find? x).bind fun n =>
    if n.isComment then none else some { n with children := n.children.filter a.isElementAt }

structure SameBare (a b : Arena) : Prop where
  left : a.WellFormed
  right : b.WellFormed
  bare_eq : a.bare? = b.bare?

variable {a b c : Arena} {x y p r d : NodeId} {n m : Node} {xs ys ps : List NodeId}

theorem bare?_eq_some (hx : a.find? x = some n) (hn : n.isComment = false) :
    a.bare? x = some { n with children := n.children.filter a.isElementAt } := by
  simp [bare?, hx, hn]

theorem isElementAt_eq_bare? (a : Arena) (x : NodeId) :
    a.isElementAt x = (a.bare? x).any (·.isElement) := by
  cases hx : a.find? x with
  | none => simp [isElementAt, bare?, hx]
  | some n =>
    cases hn : n.data.kind <;>
      simp [isElementAt, bare?, hx, Node.isElement, Node.isComment, Node.kind, hn]

theorem not_element_of_isComment (hn : n.isComment = true) : n.isElement = false := by
  rw [Node.isComment, decide_eq_true_iff] at hn
  simp [Node.isElement, hn]

theorem not_document_of_isComment (hn : n.isComment = true) : n.isDocument = false := by
  rw [Node.isComment, decide_eq_true_iff] at hn
  simp [Node.isDocument, hn]

theorem ne_of_not_comment (hx : a.find? x = some n) (hn : n.isComment = true)
    (hy : a.find? y = some m) (hm : m.isComment = false) : y ≠ x := by
  rintro rfl
  obtain rfl := Option.eq_some_unique hx hy
  exact Bool.false_ne_true (hm.symm.trans hn)

theorem exists_element (hx : a.isElementAt x = true) :
    ∃ n, a.find? x = some n ∧ n.isElement = true ∧ n.isComment = false := by
  obtain ⟨n, hn, hel⟩ := isElementAt_iff.1 hx
  exact ⟨n, hn, hel, Bool.eq_false_iff.2 fun hc =>
    Bool.false_ne_true ((not_element_of_isComment hc).symm.trans hel)⟩

namespace WellFormed

variable (h : a.WellFormed)
include h

theorem not_comment_of_above (hpx : a.Above p x) (hp : a.find? p = some m) :
    m.isComment = false := by
  obtain ⟨ps, hps, hmem⟩ := hpx
  induction hps with
  | root => exact absurd hmem List.not_mem_nil
  | under hparent _ ih =>
    rcases List.mem_cons.1 hmem with rfl | hmem
    · exact h.not_comment_of_hasParent hparent hp
    · exact ih hmem

theorem filter_preorder (hp : a.Preorder xs ys)
    (hxs : ∀ x ∈ xs, ∃ n, a.find? x = some n ∧ n.isDocument = false) :
    ys.filter a.isElementAt =
      (xs.filter a.isElementAt).flatMap fun x => (a.subtree x).filter a.isElementAt := by
  induction hp with
  | nil => rfl
  | @cons x n ys xs zs hx hc hs _ ihs =>
    obtain ⟨⟨k, hk, hdoc⟩, hxs⟩ := List.forall_mem_cons.1 hxs
    obtain rfl := Option.eq_some_unique hx hk
    obtain ⟨us, hus, hsub⟩ := h.exists_preorder_children hx
    obtain rfl := hc.unique hus
    rcases eq_element_or_comment_or_document n with hn | hn | hn
    · have hel : a.isElementAt x = true := (isElementAt_eq hx).trans hn
      simp [hel, hsub, ihs hxs]
    · have hel : a.isElementAt x = false :=
        (isElementAt_eq hx).trans (not_element_of_isComment hn)
      rw [h.comment_children hx hn] at hc
      obtain ⟨⟩ := hc
      simp [hel, ihs hxs]
    · exact absurd hn (Bool.eq_false_iff.1 hdoc)

end WellFormed

namespace SameBare

theorem refl (h : a.WellFormed) : a.SameBare a := ⟨h, h, rfl⟩

theorem symm (h : a.SameBare b) : b.SameBare a := ⟨h.right, h.left, h.bare_eq.symm⟩

theorem trans (hab : a.SameBare b) (hbc : b.SameBare c) : a.SameBare c :=
  ⟨hab.left, hbc.right, hab.bare_eq.trans hbc.bare_eq⟩

variable (h : a.SameBare b)
include h

theorem isElementAt_eq : b.isElementAt = a.isElementAt := by
  funext x
  rw [isElementAt_eq_bare?, isElementAt_eq_bare?, h.bare_eq]

theorem find? (hx : a.find? x = some n) (hn : n.isComment = false) :
    ∃ cs, b.find? x = some { n with children := cs } ∧
      cs.filter a.isElementAt = n.children.filter a.isElementAt := by
  have hbare := bare?_eq_some hx hn
  rw [h.bare_eq, bare?, h.isElementAt_eq] at hbare
  obtain ⟨m, hm, hif⟩ := Option.bind_eq_some_iff.1 hbare
  split at hif
  · cases hif
  · obtain ⟨⟩ := n
    obtain ⟨⟩ := m
    simp at hif
    obtain ⟨rfl, rfl, hcs, rfl, rfl⟩ := hif
    exact ⟨_, hm, hcs⟩

theorem hasParent_iff (hx : a.isElementAt x = true) : b.HasParent x p ↔ a.HasParent x p := by
  obtain ⟨n, hn, -, hcomment⟩ := exists_element hx
  obtain ⟨cs, hx', -⟩ := h.find? hn hcomment
  simp [HasParent, hn, hx']

theorem lineage (hx : a.isElementAt x = true) (hps : a.Lineage x ps) : b.Lineage x ps := by
  obtain ⟨n, hn, -, hnc⟩ := exists_element hx
  refine hps.congr fun y hy m hm => ?_
  have hcomment : m.isComment = false := by
    rcases List.mem_cons.1 hy with rfl | hy
    · obtain rfl := Option.eq_some_unique hn hm
      exact hnc
    · exact h.left.not_comment_of_above ⟨ps, hps, hy⟩ hm
  obtain ⟨cs, hy', -⟩ := h.find? hm hcomment
  exact ⟨_, hy', rfl⟩

theorem above (hx : a.isElementAt x = true) (hp : a.Above p x) : b.Above p x := by
  obtain ⟨ps, hps, hmem⟩ := hp
  exact ⟨ps, h.lineage hx hps, hmem⟩

theorem among (hx : a.isElementAt x = true) (hys : a.Among x ys) : b.Among x ys := by
  obtain ⟨n, p, m, hn, hp, hm, hcount, rfl⟩ := hys
  obtain ⟨_, hn', -, hcomment⟩ := exists_element hx
  obtain rfl := Option.eq_some_unique hn hn'
  obtain ⟨cs, hx', -⟩ := h.find? hn hcomment
  obtain ⟨ds, hp', hds⟩ := h.find? hm (h.left.not_comment_of_hasParent ⟨n, hn, hp⟩ hm)
  exact ⟨_, p, _, hx', hp, hp', hcount, by rw [h.isElementAt_eq, hds]⟩

theorem filter_subtree (hr : a.find? r = some n) (hn : n.isComment = false) :
    (b.subtree r).filter a.isElementAt = (a.subtree r).filter a.isElementAt := by
  refine h.left.descend (P := fun r => ∀ n, a.find? r = some n → n.isComment = false →
    (b.subtree r).filter a.isElementAt = (a.subtree r).filter a.isElementAt) ?_ hr n hr hn
  intro x k hk ih n hn hcomment
  obtain rfl := Option.eq_some_unique hk hn
  obtain ⟨cs, hx, hcs⟩ := h.find? hk hcomment
  obtain ⟨us, hus, hsub⟩ := h.left.exists_preorder_children hk
  obtain ⟨vs, hvs, hsub'⟩ := h.right.exists_preorder_children hx
  have hold := h.left.filter_preorder hus (h.left.child_not_document hk)
  have hnew := h.right.filter_preorder hvs (h.right.child_not_document hx)
  have hbelow : ∀ c ∈ k.children.filter a.isElementAt,
      (b.subtree c).filter a.isElementAt = (a.subtree c).filter a.isElementAt := by
    intro c hc
    obtain ⟨hmem, hel⟩ := List.mem_filter.1 hc
    obtain ⟨m, hm, -, hmc⟩ := exists_element hel
    exact ih c hmem m hm hmc
  rw [h.isElementAt_eq, hcs] at hnew
  rw [hsub, hsub', List.filter_cons, List.filter_cons, hold, hnew, List.flatMap_congr hbelow]

end SameBare

theorem filter_filter_bne {q : NodeId → Bool} (hx : q x = false) (ys : List NodeId) :
    (ys.filter (· != x)).filter q = ys.filter q := by
  rw [List.filter_filter]
  refine List.filter_congr fun y _ => ?_
  by_cases hy : y = x <;> simp [hy, hx]

theorem filter_insertInto {q : NodeId → Bool} (hx : q x = false) (ref : Option NodeId)
    (ys : List NodeId) : (Edit.insertInto x ref ys).filter q = ys.filter q := by
  induction ys with
  | nil => simp [Edit.insertInto, hx]
  | cons y ys ih =>
    rw [Edit.insertInto]
    split
    · rw [List.filter_cons_of_neg (by simp [hx])]
    · rw [List.filter_cons, List.filter_cons, ih]

theorem bare?_eq_none (hx : ∀ n, a.find? x = some n → n.isComment = true) : a.bare? x = none := by
  cases hn : a.find? x with
  | none => simp [bare?, hn]
  | some n => simp [bare?, hn, hx n hn]

theorem bare?_eq_of_agree (hout : ∀ y, y ≠ x → b.find? y = a.find? y)
    (ha : ∀ n, a.find? x = some n → n.isComment = true)
    (hb : ∀ n, b.find? x = some n → n.isComment = true) : a.bare? = b.bare? := by
  have hel : b.isElementAt = a.isElementAt := by
    funext y
    by_cases hy : y = x
    · rw [hy, isElementAt_eq_bare?, isElementAt_eq_bare?, bare?_eq_none ha, bare?_eq_none hb]
    · rw [isElementAt, isElementAt, hout y hy]
  funext y
  by_cases hy : y = x
  · rw [hy, bare?_eq_none ha, bare?_eq_none hb]
  · rw [bare?, bare?, hout y hy, hel]

theorem bare?_eq_of_map {f : NodeId → Node → Node} (hfind : ∀ y, b.find? y = (a.find? y).map (f y))
    (hkind : ∀ {y n}, a.find? y = some n → (f y n).kind = n.kind)
    (hkeeps : ∀ {y n}, a.find? y = some n → n.isComment = false → ∃ cs,
      f y n = { n with children := cs } ∧
        cs.filter a.isElementAt = n.children.filter a.isElementAt) : a.bare? = b.bare? := by
  have hel : b.isElementAt = a.isElementAt := by
    funext y
    cases hy : a.find? y with
    | none => simp [isElementAt, hfind, hy]
    | some n => simp [isElementAt, hfind, hy, Node.isElement, hkind hy]
  funext y
  cases hy : a.find? y with
  | none => simp [bare?, hfind, hy]
  | some n =>
    cases hn : n.isComment with
    | true => simp [bare?, hfind, hy, hn, (isComment_congr (hkind hy)).trans hn]
    | false =>
      obtain ⟨cs, hcs, hfilter⟩ := hkeeps hy hn
      have hy' : b.find? y = some { n with children := cs } := by rw [hfind, hy, ← hcs]; rfl
      rw [bare?_eq_some hy hn, bare?_eq_some hy' hn, hel, hfilter]

namespace WellFormed

variable (h : a.WellFormed)
include h

theorem subtree_comment (hx : a.find? x = some n) (hn : n.isComment = true) :
    a.subtree x = [x] := by
  obtain ⟨ys, hys, hsub⟩ := h.exists_preorder_children hx
  rw [h.comment_children hx hn] at hys
  obtain ⟨⟩ := hys
  exact hsub

theorem sameBare_push {owner : Option NodeId} {data : NodeData} (hown : a.MayOwn owner data)
    (hdata : data.kind = .comment) : a.SameBare (a.push owner data) := by
  refine ⟨h, h.push hown, bare?_eq_of_agree (x := a.nextId) ?_ ?_ ?_⟩
  · exact fun y hy => by rw [find?_push, if_neg hy]
  · exact fun n hn => absurd (find?_lt hn) (Nat.lt_irrefl _)
  · intro n hn
    obtain rfl := Option.eq_some_unique (find?_push_self a owner data) hn
    exact decide_eq_true hdata

variable (hx : a.find? x = some n) (hn : n.isComment = true)
include hx hn

theorem sameBare_setData {data : NodeData} (hdata : data.kind = .comment) :
    a.SameBare (a.update x ({ · with data })) := by
  have hk : data.kind = n.kind := hdata.trans (of_decide_eq_true hn).symm
  refine ⟨h, h.setData hx hk, bare?_eq_of_agree (x := x) ?_ ?_ ?_⟩
  · exact fun y hy => by rw [find?_update, if_neg (Ne.symm hy)]
  · exact fun m hm => Option.eq_some_unique hx hm ▸ hn
  · intro m hm
    rw [find?_update, if_pos rfl, hx] at hm
    obtain ⟨⟩ := hm
    exact decide_eq_true hdata

theorem sameBare_own (hd : a.find? d = some m) (hdoc : m.isDocument = true) :
    a.SameBare (a.own (a.subtree x) d) := by
  refine ⟨h, h.own_subtree hx (not_document_of_isComment hn) hd hdoc, ?_⟩
  refine bare?_eq_of_map (find?_own a _ d) (keepsLinks_own a _ d).kind fun {y k} hy hk => ?_
  have hmem : y ∉ a.subtree x := by
    rw [h.subtree_comment hx hn, List.mem_singleton]
    exact ne_of_not_comment hx hn hy hk
  exact ⟨k.children, by rw [if_neg hmem], rfl⟩

theorem sameBare_unlink : a.SameBare (a.unlink x) := by
  have hel : a.isElementAt x = false := (isElementAt_eq hx).trans (not_element_of_isComment hn)
  refine ⟨h, h.unlink x, bare?_eq_of_map (find?_unlink a x) (fun _ => rfl) fun {y k} hy hk => ?_⟩
  exact ⟨_, by rw [if_neg (ne_of_not_comment hx hn hy hk)], filter_filter_bne hel _⟩

theorem sameBare_moved {ref : Option NodeId} (hpx : a.Admits p x m n) (hd : m.document = some d) :
    a.SameBare (a.moved p x d ref) := by
  have hel : n.isElement = false := not_element_of_isComment hn
  have hel' : a.isElementAt x = false := (isElementAt_eq hx).trans hel
  have hs : a.Spare m n := fun _ hne => absurd hne (Bool.eq_false_iff.1 hel)
  refine ⟨h, h.moved hpx hs hd ref, ?_⟩
  refine bare?_eq_of_map (find?_moved a p x d ref) (fun _ => rfl) fun {y k} hy hk => ?_
  have hne := ne_of_not_comment hx hn hy hk
  have hmem : y ∉ a.subtree x := by rwa [h.subtree_comment hx hn, List.mem_singleton]
  refine ⟨_, by rw [if_neg hne, if_neg hmem], ?_⟩
  split
  · rw [filter_insertInto hel', filter_filter_bne hel']
  · rw [filter_filter_bne hel']

theorem sameBare_drop (hp : n.parent = none) : a.SameBare (a.drop (a.subtree x)) := by
  have hdoc : n.isDocument ≠ true := Bool.eq_false_iff.1 (not_document_of_isComment hn)
  refine ⟨h, h.drop hx hp fun hd => absurd hd hdoc, bare?_eq_of_agree (x := x) ?_ ?_ ?_⟩
  · intro y hy
    rw [find?_drop, if_neg (by rwa [h.subtree_comment hx hn, List.mem_singleton])]
  · exact fun m hm => Option.eq_some_unique hx hm ▸ hn
  · intro m hm
    rw [find?_drop_eq_some, h.subtree_comment hx hn] at hm
    exact absurd (List.mem_singleton_self x) hm.1

end WellFormed

end DocTree.Arena
