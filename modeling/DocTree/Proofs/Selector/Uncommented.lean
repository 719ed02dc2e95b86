import DocTree.Proofs.Arena.Bare
import DocTree.Proofs.Selector.Classes

namespace DocTree

variable {a b : Arena} {x y r : NodeId} {n : Node} {e : Element}

namespace Arena

theorem isNamed_iff {name : String} : a.isNamed name x = true ↔
    ∃ e, a.ElementAt x e ∧ Text.sameIgnoringCase e.name name = true := by
  constructor
  · intro hx
    obtain ⟨n, hn, hel⟩ := (Option.any_eq_true ..).1 hx
    obtain ⟨e, he, hname⟩ := (Option.any_eq_true ..).1 hel
    exact ⟨e, ⟨n, hn, element?_eq_some_iff.1 he⟩, hname⟩
  · rintro ⟨e, he, hname⟩
    rw [isNamed_eq he, hname]

namespace SameBare

variable (h : a.SameBare b)
include h

theorem elementAt (he : a.ElementAt x e) : b.ElementAt x e := by
  obtain ⟨n, hn, -, hcomment⟩ := exists_element (isElementAt_of_elementAt he)
  obtain ⟨k, hk, hdata⟩ := he
  obtain rfl := Option.eq_some_unique hn hk
  obtain ⟨cs, hx, -⟩ := h.find? hn hcomment
  exact ⟨_, hx, hdata⟩

theorem isNamed_eq (name : String) : b.isNamed name = a.isNamed name := by
  funext x
  rw [← Bool.coe_iff_coe, isNamed_iff, isNamed_iff]
  exact exists_congr fun e => and_congr_left' ⟨h.symm.elementAt, h.elementAt⟩

theorem contains (hy : a.isElementAt y = true) (hx : a.isElementAt x = true)
    (hyx : a.contains y x = .ok true) : b.contains y x = .ok true := by
  obtain ⟨m, hm, -, hmc⟩ := exists_element hy
  obtain ⟨n, hn, -, hnc⟩ := exists_element hx
  obtain ⟨ds, hy', -⟩ := h.find? hm hmc
  obtain ⟨cs, hx', -⟩ := h.find? hn hnc
  have habove := (h.left.contains_decides hm hn).eq_true_iff.1 hyx
  exact (h.right.contains_decides hy' hx').eq_true_iff.2 (h.above hx habove)

theorem precedes (hy : a.isElementAt y = true) (hx : a.isElementAt x = true)
    (hyx : a.Precedes y x) : b.Precedes y x := by
  obtain ⟨p, m, before, after, hxp, hm, hsplit, hmem⟩ := hyx
  obtain ⟨ds, hp, hds⟩ := h.find? hm (h.left.not_comment_of_hasParent hxp hm)
  -- The element children are split alike, so the children there are split at `x` with `y` before.
  rw [hsplit, List.filter_append, List.filter_cons_of_pos hx] at hds
  obtain ⟨us, vs, rfl, hus, hvs⟩ := List.filter_eq_append_iff.1 hds
  obtain ⟨ws, zs, rfl, -, -, -⟩ := List.filter_eq_cons_iff.1 hvs
  refine ⟨p, _, us ++ ws, zs, (h.hasParent_iff hx).2 hxp, hp, by simp, ?_⟩
  have hbefore : y ∈ us.filter a.isElementAt := hus ▸ List.mem_filter.2 ⟨hmem, hy⟩
  exact List.mem_append_left _ (List.mem_of_mem_filter hbefore)

end SameBare

end Arena

open Arena

theorem Predicate.Means.congr (h : a.SameBare b) (hx : a.isElementAt x = true) {p : Predicate}
    (hp : p.Means a x) : p.Means b x := by
  cases p with
  | tag name => rwa [Means, h.isNamed_eq]
  | id text =>
    obtain ⟨e, he, htext⟩ := hp
    exact ⟨e, h.elementAt he, htext⟩
  | className name =>
    obtain ⟨e, he, hmem⟩ := hp
    exact ⟨e, h.elementAt he, hmem⟩
  | hasAttribute name =>
    obtain ⟨e, v, he, hv⟩ := hp
    exact ⟨e, v, h.elementAt he, hv⟩
  | «attribute» name operator value =>
    obtain ⟨e, v, he, hv, hholds⟩ := hp
    exact ⟨e, v, h.elementAt he, hv, hholds⟩
  | root =>
    intro q k hq hk
    have hxq := (h.hasParent_iff hx).1 hq
    obtain ⟨m, hm, -⟩ := h.left.parent_live hxq
    obtain ⟨cs, hk', -⟩ := h.find? hm (h.left.not_comment_of_hasParent hxq hm)
    obtain rfl := Option.eq_some_unique hk hk'
    exact hp q m hxq hm
  | empty =>
    intro c hc
    by_contra hel
    rw [h.isElementAt_eq, Bool.not_eq_false] at hel
    exact Bool.false_ne_true ((hp c ((h.hasParent_iff hel).1 hc)).symm.trans hel)
  | onlyChild =>
    intro q c hq hc hel
    rw [h.isElementAt_eq] at hel
    exact hp q c ((h.hasParent_iff hx).1 hq) ((h.hasParent_iff hel).1 hc) hel
  | onlyOfType =>
    obtain ⟨e, ys, he, hys, honly⟩ := hp
    exact ⟨e, ys, h.elementAt he, h.among hx hys, by rwa [h.isNamed_eq]⟩
  | nthChild pattern =>
    obtain ⟨ys, hys, hranks⟩ := hp
    exact ⟨ys, h.among hx hys, hranks⟩
  | nthOfType pattern =>
    obtain ⟨e, ys, he, hys, hranks⟩ := hp
    exact ⟨e, ys, h.elementAt he, h.among hx hys, by rwa [h.isNamed_eq]⟩
  | never => exact hp

theorem Selector.Means.congr (h : a.SameBare b) {s : Selector} (hx : a.isElementAt x = true)
    (hs : s.Means a x) : s.Means b x := by
  have hel : ∀ {y}, a.isElementAt y = true → b.isElementAt y = true := by
    rw [h.isElementAt_eq]
    exact id
  induction s generalizing x with
  | simple p => exact Predicate.Means.congr h hx hs
  | all parts => exact ⟨hs.1, fun p hp => (hs.2 p hp).congr h hx⟩
  | combined c left right ihl ihr =>
    cases c with
    | descendant =>
      obtain ⟨hright, y, hy, hyx, hleft⟩ := hs
      exact ⟨ihr hx hright, y, hel hy, h.contains hy hx hyx, ihl hy hleft⟩
    | child =>
      obtain ⟨⟨y, hy, hxy, hleft⟩, hright⟩ := hs
      exact ⟨⟨y, hel hy, (h.hasParent_iff hx).2 hxy, ihl hy hleft⟩, ihr hx hright⟩
    | sibling =>
      obtain ⟨hright, y, hy, hyx, hleft⟩ := hs
      exact ⟨ihr hx hright, y, hel hy, h.precedes hy hx hyx, ihl hy hleft⟩

theorem SelectorList.Selected.congr (h : a.SameBare b) {l : SelectorList} (hx : l.Selected a x) :
    l.Selected b x := by
  obtain ⟨hel, s, hs, hmeans⟩ := hx
  exact ⟨by rwa [h.isElementAt_eq], s, hs, hmeans.congr h hel⟩

namespace Arena.SameBare

variable (h : a.SameBare b)
include h

theorem hasClassesAt_eq (wanted : List String) : b.hasClassesAt wanted = a.hasClassesAt wanted := by
  funext x
  rw [← Bool.coe_iff_coe, hasClassesAt_iff, hasClassesAt_iff]
  constructor
  · exact fun ⟨hel, hall⟩ => ⟨h.isElementAt_eq ▸ hel, fun s hs => (hall s hs).congr h.symm hel⟩
  · exact fun ⟨hel, hall⟩ => ⟨h.isElementAt_eq ▸ hel, fun s hs => (hall s hs).congr h hel⟩

theorem filter_subtree_of_element (hr : a.find? r = some n) (hn : n.isComment = false)
    {p : NodeId → Bool} (hp : ∀ y, p y = true → a.isElementAt y = true) :
    (b.subtree r).filter p = (a.subtree r).filter p := by
  have helements : ∀ ys : List NodeId, ys.filter p = (ys.filter a.isElementAt).filter p := by
    intro ys
    rw [List.filter_filter]
    refine List.filter_congr fun y _ => ?_
    cases hy : p y with
    | false => rfl
    | true => exact (hp y hy).symm
  rw [helements, h.filter_subtree hr hn, ← helements]

theorem queries_eq (hr : a.find? r = some n) (hn : n.isComment = false) (l : SelectorList)
    (names : String) :
    (∃ found, a.queryAll r l = .ok found ∧ b.queryAll r l = .ok found) ∧
      (∃ first, a.query r l = .ok first ∧ b.query r l = .ok first) ∧
      ∃ found, a.elementsByClass r names = .ok found ∧ b.elementsByClass r names = .ok found := by
  classical
  obtain ⟨cs, hr', -⟩ := h.find? hr hn
  have hselected : ∀ y, l.Selected b y = l.Selected a y := fun y =>
    propext ⟨.congr h.symm, .congr h⟩
  have hfilter : (b.subtree r).filter (l.Selected a ·) = (a.subtree r).filter (l.Selected a ·) :=
    h.filter_subtree_of_element hr hn fun y hy => (of_decide_eq_true hy).1
  refine ⟨⟨_, h.left.queryAll_eq l hr, ?_⟩, ⟨_, h.left.query_eq l hr, ?_⟩,
    ⟨_, h.left.elementsByClass_eq hr names, ?_⟩⟩
  · rw [h.right.queryAll_eq l hr']
    simp only [hselected, hfilter]
  · rw [h.right.query_eq l hr', ← List.head?_filter, ← List.head?_filter]
    simp only [hselected, hfilter]
  · have hclasses := h.filter_subtree_of_element hr hn (p := a.hasClassesAt (classTokens names))
      fun y hy => (hasClassesAt_iff.1 hy).1
    rw [h.right.elementsByClass_eq hr', List.filter_comm, h.hasClassesAt_eq, hclasses,
      List.filter_comm]

end Arena.SameBare

end DocTree
