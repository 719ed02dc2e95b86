import DocTree.Proofs.Edit.Placement

namespace DocTree

namespace Arena

variable {a : Arena} {p q x y c d : NodeId} {k m n : Node} {ys zs : List NodeId}

def AtHome (a : Arena) (p x : NodeId) : Prop :=
  ∀ y, a.Within x y → a.ownerDocument y = a.nodeDocument p

theorem Forest.atHome_iff (h : a.Forest) (hx : a.find? x = some n) :
    a.AtHome p x ↔ ∀ y ∈ a.subtree x, a.ownerDocument y = a.nodeDocument p :=
  forall_congr' fun y => by rw [h.mem_subtree_iff hx]

theorem AtHome.owner_eq (hhome : a.AtHome p x) (hp : a.find? p = some m) (hd : m.document = some d)
    (hxy : a.Within x y) (hy : a.find? y = some k) : k.owner = some d := by
  have hdoc : a.nodeDocument p = .ok (some d) := get_map_eq_ok_iff.2 ⟨m, hp, hd⟩
  obtain ⟨k', hk', ho⟩ := get_map_eq_ok_iff.1 ((hhome y hxy).trans hdoc)
  obtain rfl := Option.eq_some_unique hy hk'
  rw [Node.ownerDocument] at ho
  split at ho
  · cases ho
  · exact ho

theorem Forest.moved_eq_link (h : a.Forest) (hx : a.find? x = some n) (hn : n.parent = none)
    (howner : ∀ y ∈ a.subtree x, ∀ k, a.find? y = some k → k.owner = some d)
    (ref : Option NodeId) : a.moved p x d ref = a.link p x ref := by
  rw [moved, h.unlink_eq_self hx hn, own_eq_self howner]

theorem Forest.link_unlink (h : a.Forest) (hp : a.find? p = some m)
    (hsplit : m.children = ys ++ x :: zs) : (a.unlink x).link p x zs.head? = a := by
  have hxp := h.hasParent_of_mem hp (by simp [hsplit] : x ∈ m.children)
  rw [Arena.link, Arena.unlink, mapNodes_mapNodes]
  refine mapNodes_eq_self fun y k hy => ?_
  have hparent : (if y = x then some p else if y = x then none else k.parent) = k.parent := by
    split
    next hyx =>
      subst hyx
      exact (h.parent_eq_of_mem hp (by simp [hsplit]) hy).symm
    next => rfl
  have hchildren : (if y = p then Edit.insertInto x zs.head? (k.children.filter (· != x))
      else k.children.filter (· != x)) = k.children := by
    split
    next hyp =>
      subst hyp
      obtain rfl := Option.eq_some_unique hp hy
      have hnodup := h.children_nodup hp
      rw [hsplit] at hnodup ⊢
      exact Edit.insertInto_head? hnodup
    next hyp => exact h.filter_children_eq_self hy fun hxy => hyp (hxy.unique hxp)
  simp only [hparent, hchildren]

theorem WellFormed.admits_unlink (h : a.WellFormed) (hp : a.find? p = some m)
    (hx : a.find? x = some n) (hxp : n.parent = some p) :
    ∃ m' n', (a.unlink x).Admits p x m' n' ∧ (a.unlink x).Spare m' n' ∧
      m'.document = m.document := by
  have hparent : a.HasParent x p := ⟨n, hx, hxp⟩
  have hmem : x ∈ m.children := (h.mem_children_iff hp).2 hparent
  have hdoc := h.not_document_of_hasParent hx hxp
  have hcomment := h.not_comment_of_hasParent hparent hp
  have hnot := h.not_within_of_hasParent hparent
  refine ⟨_, _, ⟨find?_mapNodes_of_live hp, hcomment, find?_mapNodes_of_live hx, hdoc,
    mt (h.within_unlink_iff hp hnot).1 hnot⟩, ?_, rfl⟩
  intro hdoc hel c hc
  obtain ⟨hc, hcx⟩ := List.mem_filter.1 hc
  rw [isElementAt_unlink]
  by_contra hcel
  -- The child is the only element of a document, so what it leaves are comments.
  exact bne_iff_ne.1 hcx (h.document_element hp hdoc hc hmem (by simpa using hcel)
    ((isElementAt_eq hx).trans hel))

theorem WellFormed.run_insertBefore_unlink (h : a.WellFormed) (hp : a.find? p = some m)
    (hsplit : m.children = ys ++ x :: zs) (hhome : a.AtHome p x) :
    (Edit.insertBefore p x zs.head?).run (a.unlink x) = .ok x a := by
  obtain ⟨n, hx, hxp⟩ := h.hasParent_of_mem hp (by simp [hsplit] : x ∈ m.children)
  obtain ⟨d, -, hd, -⟩ := h.document_live hp
  obtain ⟨m', n', hadmits, hspare, hd'⟩ := h.admits_unlink hp hx hxp
  have hnext : ∀ c, zs.head? = some c → c ≠ x ∧ (a.unlink x).HasParent c p := by
    intro c hc
    have hcz := List.mem_of_mem_head? hc
    have hcx : c ≠ x := by
      rintro rfl
      exact (h.notMem_of_split hp hsplit).2 hcz
    rw [← unlinkAll_singleton]
    exact ⟨hcx, hasParent_unlinkAll.2 ⟨by simpa using hcx,
      h.hasParent_of_mem hp (by simp [hsplit, hcz])⟩⟩
  have href : (a.unlink x).reference x zs.head? = .ok zs.head? :=
    if_neg fun hhead => (hnext x hhead).1 rfl
  have howner : ∀ y ∈ (a.unlink x).subtree x, ∀ k, (a.unlink x).find? y = some k →
      k.owner = some d := by
    intro y hy _ hfind
    rw [h.subtree_unlink hx, h.mem_subtree_iff hx] at hy
    obtain ⟨k, hk, rfl⟩ := find?_mapNodes_eq_some hfind
    have howner := hhome.owner_eq hp hd hy hk
    exact howner
  have hroot : (a.unlink x).find? x = some _ := find?_mapNodes_of_live hx
  rw [Edit.run_insertBefore (h.unlink x) hadmits hspare (fun c hc => (hnext c hc).2) href
      (hd'.trans hd), (h.unlink x).moved_eq_link hroot (if_pos rfl) howner, h.link_unlink hp hsplit]

def swapped (a : Arena) (p x c : NodeId) : Arena :=
  a.mapNodes fun y n =>
    { n with
      parent := if y = c then none else if y = x then some p else n.parent
      children := if y = p then n.children.replace c x else n.children }

theorem Forest.replaced_eq_swapped (h : a.Forest) (hx : a.find? x = some n) (hn : n.parent = none)
    (howner : ∀ y ∈ a.subtree x, ∀ k, a.find? y = some k → k.owner = some d) (c : NodeId) :
    a.replaced p x c d = a.swapped p x c := by
  refine mapNodes_congr fun y k hy => ?_
  have hchildren := h.filter_children_eq_self hy fun hxy => hxy.ne_root hx hn
  have hown : (if y ∈ a.subtree x then some d else k.owner) = k.owner := by
    split
    next hmem => exact (howner y hmem k hy).symm
    next => rfl
  rw [hchildren, hown]

theorem replace_replace (hx : x ∉ ys) (c : NodeId) : (ys.replace c x).replace x c = ys := by
  induction ys with
  | nil => rfl
  | cons y ys ih =>
    rw [List.mem_cons, not_or] at hx
    by_cases hcy : c = y
    · subst hcy
      rw [List.replace_cons_self, List.replace_cons_self]
    · rw [List.replace_cons, beq_eq_false_iff_ne.2 hcy, List.replace_cons,
        beq_eq_false_iff_ne.2 hx.1, ih hx.2]

theorem Forest.swapped_swapped (h : a.Forest) (hx : a.find? x = some n) (hn : n.parent = none)
    (hc : a.HasParent c p) : (a.swapped p x c).swapped p c x = a := by
  rw [swapped, swapped, mapNodes_mapNodes]
  refine mapNodes_eq_self fun y k hy => ?_
  have hparent : (if y = x then none else if y = c then some p
      else if y = c then none else if y = x then some p else k.parent) = k.parent := by
    by_cases hyx : y = x
    · subst hyx
      rw [if_pos rfl, ← Option.eq_some_unique hx hy, hn]
    · by_cases hyc : y = c
      · subst hyc
        obtain ⟨j, hj, hjp⟩ := hc
        rw [if_neg hyx, if_pos rfl, ← Option.eq_some_unique hj hy, hjp]
      · simp only [hyx, hyc, if_false]
  have hchildren : (if y = p then (if y = p then k.children.replace c x else k.children).replace x c
      else if y = p then k.children.replace c x else k.children) = k.children := by
    by_cases hyp : y = p
    · rw [if_pos hyp, if_pos hyp]
      exact replace_replace (fun hmem => (h.hasParent_of_mem hy hmem).ne_root hx hn) c
    · rw [if_neg hyp, if_neg hyp]
  rw [hparent, hchildren]

theorem hasParent_of_swapped (hy : (a.swapped p x c).HasParent y q) :
    y ≠ c ∧ (y = x ∨ a.HasParent y q) := by
  obtain ⟨_, hfind, hyq⟩ := hy
  obtain ⟨k, hk, rfl⟩ := find?_mapNodes_eq_some hfind
  by_cases hyc : y = c
  · simp [hyc] at hyq
  · by_cases hyx : y = x
    · exact ⟨hyc, .inl hyx⟩
    · exact ⟨hyc, .inr ⟨k, hk, by simpa [hyc, hyx] using hyq⟩⟩

theorem WellFormed.admits_swapped (h : a.WellFormed) (hb : (a.swapped p x c).WellFormed)
    (hpx : a.Admits p x m n) (hc : a.find? c = some k) (hcp : k.parent = some p)
    (hnot : ¬ (a.swapped p x c).Within c p) :
    ∃ m' k', (a.swapped p x c).Admits p c m' k' ∧ (a.swapped p x c).SpareBut m' k' x ∧
      m'.document = m.document := by
  have hdoc := h.not_document_of_hasParent hc hcp
  refine ⟨_, _, ⟨find?_mapNodes_of_live hpx.parent, hpx.not_comment, find?_mapNodes_of_live hc,
    hdoc, hnot⟩, ?_, rfl⟩
  intro hdoc hel e he helem
  have hep := hb.hasParent_of_mem (find?_mapNodes_of_live hpx.parent) he
  obtain ⟨hec, hex | hep⟩ := hasParent_of_swapped hep
  · exact hex
  · rw [swapped, isElementAt_mapNodes (by intros; rfl)] at helem
    have hmem : ∀ {y}, a.HasParent y p → y ∈ m.children := (h.mem_children_iff hpx.parent).2
    exact absurd (h.document_element hpx.parent hdoc (hmem hep) (hmem ⟨k, hc, hcp⟩) helem
      ((isElementAt_eq hc).trans hel)) hec

theorem WellFormed.run_replaceChild_replaced (h : a.WellFormed) (hpx : a.Admits p x m n)
    (hc : a.HasParent c p) (hs : a.SpareBut m n c) (hd : m.document = some d)
    (hn : n.parent = none) (hxhome : a.AtHome p x) (hchome : a.AtHome p c) :
    (Edit.replaceChild p c x).run (a.replaced p x c d) = .ok c a := by
  obtain ⟨k, hk, hkp⟩ := id hc
  have hne : x ≠ c := by
    rintro rfl
    exact hc.ne_root hpx.node hn
  have hxc : ¬ a.Within x c := fun hxc =>
    ((h.within_iff_of_hasParent hc).1 hxc).elim (fun hcx => hne hcx.symm) hpx.not_within
  have hb := h.of_changes (h.changes_replaced hpx hc hs hd hne)
  have hwithin : ∀ {y j}, a.find? y = some j → (a.replaced p x c d).Within c y → a.Within c y :=
    fun hy hcy => ((h.within_replaced_iff hpx hc hs hd hxc hy).1 hcy).1
  have hswapped : a.replaced p x c d = a.swapped p x c := by
    refine h.replaced_eq_swapped hpx.node hn (fun y hy j => ?_) c
    exact hxhome.owner_eq hpx.parent hd ((h.mem_subtree_iff hpx.node).1 hy)
  rw [hswapped] at hb hwithin ⊢
  obtain ⟨m', k', hadmits, hspare, hd'⟩ := h.admits_swapped hb hpx hk hkp
    (mt (hwithin hpx.parent) (h.not_within_of_hasParent hc))
  have hcame : (a.swapped p x c).HasParent x p :=
    ⟨_, find?_mapNodes_of_live hpx.node, by simp [hne]⟩
  have hroot : (a.swapped p x c).find? c = some _ := find?_mapNodes_of_live hk
  have howner : ∀ y ∈ (a.swapped p x c).subtree c, ∀ j, (a.swapped p x c).find? y = some j →
      j.owner = some d := by
    intro y hy _ hfind
    obtain ⟨j, hj, rfl⟩ := find?_mapNodes_eq_some hfind
    have hcy := hwithin hj ((hb.mem_subtree_iff hroot).1 hy)
    have howner := hchome.owner_eq hpx.parent hd hcy hj
    exact howner
  rw [Edit.run_replaceChild hb hadmits hcame hspare (hd'.trans hd) hne.symm,
    hb.replaced_eq_swapped hroot (if_pos rfl) howner, h.swapped_swapped hpx.node hn hc]

/-- A removed child goes back before its next sibling, and a replaced child goes back in the place of
a node that stood alone.  If the nodes below them belong to the document of the parent, the arena is
then what it was. -/
theorem Reachable.undo_exact (ha : a.Reachable) (p : NodeId) :
    (∀ x next, a.parent x = .ok (some p) → a.nextSibling x = .ok next → a.AtHome p x →
      ∃ b, (Edit.removeChild p x).run a = .ok x b ∧
        (Edit.insertBefore p x next).run b = .ok x a) ∧
    ∀ x c y b, x ≠ c → a.parent x = .ok none → a.AtHome p x → a.AtHome p c →
      (Edit.replaceChild p x c).run a = .ok y b → (Edit.replaceChild p c x).run b = .ok c a := by
  have h := ha.wellFormed
  constructor
  · intro x next hx hnext hhome
    have hxp := parent_eq_ok_iff.1 hx
    obtain ⟨m, ys, zs, hm, hsplit⟩ := h.exists_split hxp
    obtain rfl : zs.head? = next := by
      simpa [nextSibling, h.around_eq hxp hm hsplit] using hnext
    exact ⟨_, Edit.run_removeChild h hxp, h.run_insertBefore_unlink hm hsplit hhome⟩
  · intro x c y b hxc hx hxhome hchome hrun
    obtain ⟨n, hn, hroot⟩ := parent_eq_ok_iff.1 hx
    obtain ⟨m, n', d, hpx, hc, hs, hd, rfl⟩ := Edit.run_replaceChild_eq_ok h hxc hrun
    obtain rfl := Option.eq_some_unique hn hpx.node
    exact h.run_replaceChild_replaced hpx hc hs hd hroot hxhome hchome

theorem undo_exact_document : ∃ a b c : Arena, a.Reachable ∧
    (a.parent 1 = .ok (some 0) ∧ a.nextSibling 1 = .ok (some 3) ∧ a.AtHome 0 1 ∧
      (Edit.removeChild 0 1).run a = .ok 1 b ∧
      (Edit.insertBefore 0 1 (some 3)).run b = .ok 1 a) ∧
    4 ≠ 1 ∧ a.parent 4 = .ok none ∧ a.AtHome 0 4 ∧
      (Edit.replaceChild 0 4 1).run a = .ok 4 c ∧ (Edit.replaceChild 0 1 4).run c = .ok 1 a := by
  have h : (Operation.run [.createDocument, .createElement 0 "a", .createComment 0 "b",
      .createComment 0 "c", .createElement 0 "d", .createComment 0 "e", .append 0 [2, 1, 3],
      .appendChild 4 5] .empty).Reachable := ⟨⟨_, rfl⟩, by decide⟩
  have hold := (h.wellFormed.atHome_iff (p := 0) (x := 1) rfl).2 (by decide +kernel)
  have hnew := (h.wellFormed.atHome_iff (p := 0) (x := 4) rfl).2 (by decide +kernel)
  obtain ⟨hremove, hreplace⟩ := h.undo_exact 0
  obtain ⟨b, hrun, hback⟩ := hremove 1 (some 3) rfl rfl hold
  exact ⟨_, b, _, h, ⟨rfl, rfl, hold, hrun, hback⟩, by decide, rfl, hnew, rfl,
    hreplace 4 1 _ _ (by decide) rfl hnew hold rfl⟩

end Arena

end DocTree
