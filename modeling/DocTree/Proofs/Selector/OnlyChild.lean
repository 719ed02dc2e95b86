import DocTree.Proofs.Selector.Selection

namespace DocTree

variable {a : Arena} {x : NodeId} {n : Node} {ys : List NodeId}

namespace NthPattern

theorem ranks_first_iff : first.Ranks ys x ↔ ys.head? = some x := by
  constructor
  · rintro ⟨before, after, rfl, h⟩
    have hindex : before.length + 1 = 1 := (matchesIndex_place false _ 1).1 h
    obtain rfl := List.length_eq_zero_iff.1 (Nat.succ.inj hindex)
    rfl
  · intro h
    obtain ⟨after, rfl⟩ := List.head?_eq_some_iff.1 h
    exact ⟨[], after, rfl, rfl⟩

theorem ranks_last_iff : last.Ranks ys x ↔ ys.getLast? = some x := by
  constructor
  · rintro ⟨before, after, rfl, h⟩
    have hindex : after.length + 1 = 1 := (matchesIndex_place true _ 1).1 h
    obtain rfl := List.length_eq_zero_iff.1 (Nat.succ.inj hindex)
    exact List.getLast?_concat
  · intro h
    obtain ⟨before, rfl⟩ := List.getLast?_eq_some_iff.1 h
    exact ⟨before, [], rfl, rfl⟩

theorem ranks_first_last_iff (hys : ys.Nodup) :
    first.Ranks ys x ∧ last.Ranks ys x ↔ ys = [x] := by
  rw [ranks_first_iff, ranks_last_iff]
  constructor
  · rintro ⟨hfirst, hlast⟩
    obtain ⟨after, rfl⟩ := List.head?_eq_some_iff.1 hfirst
    cases after with
    | nil => rfl
    | cons y zs =>
      rw [List.getLast?_cons_cons] at hlast
      exact absurd (List.mem_of_getLast? hlast) (List.nodup_cons.1 hys).1
  · rintro rfl
    exact ⟨rfl, rfl⟩

end NthPattern

namespace Arena

theorem exists_among_iff (h : a.Forest) (hx : a.find? x = some n) :
    (∃ ys, a.Among x ys) ↔
      ∃ p, n.parent = some p ∧ (a.isElementAt p = true ∨ n.ownerDocument = some p) := by
  constructor
  · rintro ⟨ys, k, p, m, hk, hp, hm, hcount, -⟩
    obtain rfl := Option.eq_some_unique hx hk
    exact ⟨p, hp, by rwa [isElementAt_eq hm]⟩
  · rintro ⟨p, hp, hcount⟩
    obtain ⟨m, hm, -⟩ := h.parent_live ⟨n, hx, hp⟩
    rw [isElementAt_eq hm] at hcount
    exact ⟨_, n, p, m, hx, hp, hm, hcount, rfl⟩

theorem exists_among_and_iff {P Q : List NodeId → Prop} :
    (∃ ys, a.Among x ys ∧ P ys) ∧ (∃ ys, a.Among x ys ∧ Q ys) ↔
      ∃ ys, a.Among x ys ∧ P ys ∧ Q ys := by
  constructor
  · rintro ⟨⟨ys, hys, hP⟩, ⟨zs, hzs, hQ⟩⟩
    obtain rfl := hys.unique hzs
    exact ⟨ys, hys, hP, hQ⟩
  · rintro ⟨ys, hys, hP, hQ⟩
    exact ⟨⟨ys, hys, hP⟩, ⟨ys, hys, hQ⟩⟩

theorem Among.eq_singleton_iff (h : a.Forest) (hx : a.isElementAt x = true)
    (hys : a.Among x ys) : ys = [x] ↔ Predicate.onlyChild.Means a x := by
  have hmem := hys.mem h hx
  have hnodup := hys.nodup h
  obtain ⟨n, p, m, hn, hp, hm, -, rfl⟩ := hys
  have hchild : ∀ c, c ∈ m.children.filter a.isElementAt ↔
      a.HasParent c p ∧ a.isElementAt c = true := fun c => by
    rw [List.mem_filter, h.mem_children_iff hm]
  constructor
  · intro hys q c hq hc hel
    obtain rfl := HasParent.unique ⟨n, hn, hp⟩ hq
    have hc' := (hchild c).2 ⟨hc, hel⟩
    rwa [hys, List.mem_singleton] at hc'
  · intro honly
    refine List.perm_singleton.1 ((List.perm_ext_iff_of_nodup hnodup (by simp)).2 fun c => ?_)
    rw [List.mem_singleton]
    constructor
    · intro hc
      obtain ⟨hc, hel⟩ := (hchild c).1 hc
      exact honly p c ⟨n, hn, hp⟩ hc hel
    · rintro rfl
      exact hmem

end Arena

namespace Selector

theorem means_first_last_child_iff (h : a.Forest) (hx : a.isElementAt x = true) :
    (all [.nthChild .first, .nthChild .last]).Means a x ↔
      Predicate.onlyChild.Means a x ∧ ∃ ys, a.Among x ys := by
  have hsplit : (all [.nthChild .first, .nthChild .last]).Means a x ↔
      ∃ ys, a.Among x ys ∧ NthPattern.first.Ranks ys x ∧ NthPattern.last.Ranks ys x := by
    rw [← Arena.exists_among_and_iff]
    simp [Means, Predicate.Means]
  rw [hsplit, and_comm, ← exists_and_right]
  refine exists_congr fun ys => and_congr_right fun hys => ?_
  rw [NthPattern.ranks_first_last_iff (hys.nodup h), hys.eq_singleton_iff h hx]

theorem means_first_last_ofType_iff (h : a.Forest) (hx : a.isElementAt x = true) :
    (all [.nthOfType .first, .nthOfType .last]).Means a x ↔ Predicate.onlyOfType.Means a x := by
  obtain ⟨e, he⟩ := Arena.exists_elementAt hx
  have hsplit : (all [.nthOfType .first, .nthOfType .last]).Means a x ↔
      ∃ ys, a.Among x ys ∧ NthPattern.first.Ranks (ys.filter (a.isNamed e.name)) x ∧
        NthPattern.last.Ranks (ys.filter (a.isNamed e.name)) x := by
    rw [← Arena.exists_among_and_iff]
    simp [Means, Predicate.Means, he.exists_iff]
  have honly : Predicate.onlyOfType.Means a x ↔
      ∃ ys, a.Among x ys ∧ ys.filter (a.isNamed e.name) = [x] := by
    simp [Predicate.Means, he.exists_iff]
  rw [hsplit, honly]
  refine exists_congr fun ys => and_congr_right fun hys => ?_
  rw [NthPattern.ranks_first_last_iff ((hys.nodup h).filter _)]

end Selector

namespace SelectorList

theorem parse_onlyChild : parse ":only-child" = ⟨[.simple .onlyChild]⟩ := by decide +kernel

theorem parse_onlyOfType : parse ":only-of-type" = ⟨[.simple .onlyOfType]⟩ := by decide +kernel

theorem parse_first_last_child :
    parse ":first-child:last-child" = ⟨[.all [.nthChild .first, .nthChild .last]]⟩ := by
  decide +kernel

theorem parse_first_last_ofType : parse ":first-of-type:last-of-type" =
    ⟨[.all [.nthOfType .first, .nthOfType .last]]⟩ := by
  decide +kernel

theorem selected_singleton_iff {s : Selector} :
    (SelectorList.mk [s]).Selected a x ↔ s.Selected a x := by
  simp [Selected, Means, Selector.Selected]

theorem selected_first_last_child_iff (h : a.Forest) :
    (parse ":first-child:last-child").Selected a x ↔
      (parse ":only-child").Selected a x ∧ ∃ ys, a.Among x ys := by
  rw [parse_first_last_child, parse_onlyChild, selected_singleton_iff, selected_singleton_iff,
    Selector.Selected, Selector.Selected, and_assoc]
  exact and_congr_right fun hx => Selector.means_first_last_child_iff h hx

theorem selected_first_last_ofType_iff (h : a.Forest) :
    (parse ":first-of-type:last-of-type").Selected a x ↔ (parse ":only-of-type").Selected a x := by
  rw [parse_first_last_ofType, parse_onlyOfType, selected_singleton_iff, selected_singleton_iff]
  exact and_congr_right fun hx => Selector.means_first_last_ofType_iff h hx

end SelectorList

namespace Arena

/-- An only child by type is first and last by type, and the first and last child is an only child
whose parent is an element or the owner. -/
theorem Reachable.onlyChild_iff_first_last (ha : a.Reachable) (hx : a.find? x = some n) :
    ∃ onlyChild onlyOfType,
      a.isSelected x (.parse ":only-child") = .ok onlyChild ∧
      a.isSelected x (.parse ":only-of-type") = .ok onlyOfType ∧
      a.isSelected x (.parse ":first-of-type:last-of-type") = .ok onlyOfType ∧
      Decides (a.isSelected x (.parse ":first-child:last-child")) (onlyChild = true ∧
        ∃ p, n.parent = some p ∧ (a.isElementAt p = true ∨ n.ownerDocument = some p)) := by
  have h := ha.wellFormed
  obtain ⟨onlyChild, hchild, honly⟩ := h.decides_isSelected (.parse ":only-child") hx
  obtain ⟨onlyOfType, htype, honlyType⟩ := h.decides_isSelected (.parse ":only-of-type") hx
  refine ⟨onlyChild, onlyOfType, hchild, htype, ?_, ?_⟩
  · have hboth := h.decides_isSelected (.parse ":first-of-type:last-of-type") hx
    rw [SelectorList.selected_first_last_ofType_iff h.toForest] at hboth
    exact hboth.eq ⟨onlyOfType, rfl, honlyType⟩
  · rw [honly, ← exists_among_iff h.toForest hx,
      ← SelectorList.selected_first_last_child_iff h.toForest]
    exact h.decides_isSelected (.parse ":first-child:last-child") hx

theorem onlyChild_iff_first_last_commented : ∃ (a : Arena) (n : Node), a.Reachable ∧
    a.find? 2 = some n ∧ ∃ onlyChild onlyOfType,
      a.isSelected 2 (.parse ":only-child") = .ok onlyChild ∧
      a.isSelected 2 (.parse ":only-of-type") = .ok onlyOfType ∧
      a.isSelected 2 (.parse ":first-of-type:last-of-type") = .ok onlyOfType ∧
      Decides (a.isSelected 2 (.parse ":first-child:last-child")) (onlyChild = true ∧
        ∃ p, n.parent = some p ∧ (a.isElementAt p = true ∨ n.ownerDocument = some p)) := by
  have h : (Operation.run [.createDocument, .createElement 0 "a", .createElement 0 "b",
      .createComment 0 "c", .append 1 [3, 2]] .empty).Reachable := ⟨⟨_, rfl⟩, by decide⟩
  exact ⟨_, _, h, rfl, h.onlyChild_iff_first_last rfl⟩

theorem onlyChild_without_parent : ¬ ∀ (a : Arena) (x : NodeId) (n : Node), a.Reachable →
    a.find? x = some n → n.isElement = true →
    (a.isSelected x (.parse ":only-child") = .ok true ↔
      a.isSelected x (.parse ":first-child:last-child") = .ok true) ∧
    (a.isSelected x (.parse ":only-of-type") = .ok true ↔
      a.isSelected x (.parse ":first-of-type:last-of-type") = .ok true) := by
  intro hall
  have h : (Operation.run [.createDocument, .createElement 0 "a"] .empty).Reachable :=
    ⟨⟨_, rfl⟩, by decide⟩
  obtain ⟨⟨hfirst, -⟩, -⟩ := hall _ 1 _ h rfl rfl
  have honly : (Operation.run [.createDocument, .createElement 0 "a"] .empty).isSelected 1
      (.parse ":only-child") = .ok true := by decide +kernel
  have hplace : (Operation.run [.createDocument, .createElement 0 "a"] .empty).isSelected 1
      (.parse ":first-child:last-child") = .ok false := by decide +kernel
  rw [hplace] at hfirst
  exact nomatch hfirst honly

end Arena

end DocTree
