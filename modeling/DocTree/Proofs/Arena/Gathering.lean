import DocTree.Proofs.Arena.Moving

namespace DocTree.Arena

/-- The nodes `xs` stand under `p`, whose row is `row`, and their subtrees belong to `d`.  All other
rows lose them, and the nodes `gone` that are not among them have no parent. -/
def gathered (a : Arena) (p : NodeId) (xs gone : List NodeId) (d : NodeId) (row : List NodeId) :
    Arena :=
  a.mapNodes fun y n =>
    { n with
      parent := if y ∈ xs then some p else if y ∈ gone then none else n.parent
      children := if y = p then row else n.children.filter (· ∉ xs)
      owner := if y ∈ xs.flatMap a.subtree then some d else n.owner }

variable {a b : Arena} {x y p q d : NodeId} {m n : Node} {xs gone row : List NodeId}
  {ref : Option NodeId}

theorem gathered_nil (hp : a.find? p = some m) : a.gathered p [] [] d m.children = a := by
  apply mapNodes_eq_self
  intro y n hy
  by_cases hyp : y = p
  · subst hyp
    obtain rfl := Option.eq_some_unique hp hy
    simp
  · simp [hyp]

theorem filter_notMem_cons (x : NodeId) (xs row : List NodeId) :
    (row.filter (· != x)).filter (· ∉ xs) = row.filter (· ∉ x :: xs) := by
  rw [List.filter_filter]
  refine List.filter_congr fun y _ => ?_
  by_cases hyx : y = x <;> simp [hyx]

namespace Forest

variable (h : a.Forest)
include h

theorem mem_flatMap_subtree_iff (hxs : ∀ x ∈ xs, ∃ n, a.find? x = some n) :
    y ∈ xs.flatMap a.subtree ↔ ∃ x ∈ xs, a.Within x y := by
  rw [List.mem_flatMap]
  refine exists_congr fun x => and_congr_right fun hx => ?_
  obtain ⟨n, hn⟩ := hxs x hx
  exact h.mem_subtree_iff hn

theorem gathered_moved (hmoved : (a.moved p x d ref).Forest)
    (hxs : ∀ y ∈ x :: xs, ∃ n, a.find? y = some n) :
    (a.moved p x d ref).gathered p xs [] d row = a.gathered p (x :: xs) [] d row := by
  have hxs' : ∀ y ∈ xs, ∃ n, (a.moved p x d ref).find? y = some n := by
    intro y hy
    obtain ⟨n, hn⟩ := hxs y (List.mem_cons_of_mem x hy)
    exact ⟨_, find?_moved_of_live hn⟩
  obtain ⟨k, hk⟩ := hxs x (by simp)
  refine ext_find? (by simp [gathered]) rfl fun y => ?_
  rw [gathered, gathered, find?_mapNodes, find?_mapNodes, find?_moved, Option.map_map]
  refine Option.map_congr fun n hn => ?_
  have howner : (if y ∈ xs.flatMap (a.moved p x d ref).subtree then some d
      else if y ∈ a.subtree x then some d else n.owner) =
        if y ∈ (x :: xs).flatMap a.subtree then some d else n.owner := by
    by_cases hxy : y ∈ a.subtree x
    · simp [hxy]
    · obtain ⟨ps, hps⟩ := h.lineage hn
      have hsame : ∀ z, (a.moved p x d ref).Within z y ↔ a.Within z y := fun z =>
        hps.within_congr (hps.moved (mt (h.mem_subtree_iff hk).2 hxy))
      have hrest : y ∈ xs.flatMap (a.moved p x d ref).subtree ↔ y ∈ xs.flatMap a.subtree := by
        rw [hmoved.mem_flatMap_subtree_iff hxs',
          h.mem_flatMap_subtree_iff fun z hz => hxs z (List.mem_cons_of_mem x hz)]
        simp only [hsame]
      simp [hrest, hxy]
  simp only [Function.comp_apply, howner, Node.mk.injEq, true_and, and_true]
  constructor
  · by_cases hyx : y = x <;> by_cases hy : y ∈ xs <;> simp [hyx, hy]
  · by_cases hyp : y = p
    · simp [hyp]
    · rw [if_neg hyp, if_neg hyp, if_neg hyp, filter_notMem_cons]

theorem subtree_unlinkAll (hx : a.find? x = some n) (hxp : ¬ a.Within x p)
    (hgone : ∀ c ∈ gone, a.HasParent c p) : (a.unlinkAll gone).subtree x = a.subtree x := by
  refine h.subtree_congr (h.unlinkAll gone) hx fun y hy k hk => ⟨_, find?_mapNodes_of_live hk, ?_⟩
  refine List.filter_eq_self.2 fun c hc => decide_eq_true fun hcg => hxp ?_
  rw [(hgone c hcg).unique (h.hasParent_of_mem hk hc)]
  exact hy

theorem gathered_unlinkAll (hgone : ∀ c ∈ gone, a.HasParent c p)
    (hxs : ∀ x ∈ xs, ∃ n, a.find? x = some n ∧ ¬ a.Within x p) :
    (a.unlinkAll gone).gathered p xs [] d row = a.gathered p xs gone d row := by
  have hsub : xs.flatMap (a.unlinkAll gone).subtree = xs.flatMap a.subtree := by
    refine List.flatMap_congr fun x hx => ?_
    obtain ⟨n, hn, hxp⟩ := hxs x hx
    exact h.subtree_unlinkAll hn hxp hgone
  rw [gathered, hsub, Arena.unlinkAll, mapNodes_mapNodes]
  apply mapNodes_congr
  intro y n hy
  have hchildren : y ≠ p → n.children.filter (· ∉ gone) = n.children := fun hyp =>
    List.filter_eq_self.2 fun c hc => decide_eq_true fun hcg =>
      hyp ((h.hasParent_of_mem hy hc).unique (hgone c hcg))
  by_cases hyp : y = p
  · simp [hyp]
  · simp only [hyp, hchildren hyp, List.not_mem_nil, if_false]

end Forest

end DocTree.Arena
