import DocTree.Arena.Walk
import DocTree.Proofs.Arena.Navigation

namespace DocTree.Arena

/-- The subtrees of some nodes, one after another: each node, then the subtrees of its children. -/
inductive Preorder (a : Arena) : List NodeId → List NodeId → Prop
  | nil : Preorder a [] []
  | cons : a.find? x = some n → Preorder a n.children ys → Preorder a xs zs →
      Preorder a (x :: xs) (x :: (ys ++ zs))

def subtree (a : Arena) (x : NodeId) : List NodeId :=
  match a.preorder x with
  | .ok ys => ys
  | .error _ => []

variable {a : Arena} {x y z p c d : NodeId} {n m : Node} {xs ys zs ws : List NodeId}

theorem Preorder.unique (hy : a.Preorder xs ys) (hz : a.Preorder xs zs) : ys = zs := by
  induction hy generalizing zs with
  | nil =>
    cases hz
    rfl
  | cons hx _ _ ihc ihs =>
    cases hz with
    | cons hx' hc hs =>
      obtain rfl := Option.eq_some_unique hx hx'
      rw [ihc hc, ihs hs]

theorem Preorder.append (hx : a.Preorder xs ys) (hz : a.Preorder zs ws) :
    a.Preorder (xs ++ zs) (ys ++ ws) := by
  induction hx with
  | nil => exact hz
  | cons hx hc _ _ ihs => simpa using .cons hx hc ihs

theorem Preorder.exists_reverse (h : a.Preorder xs ys) :
    ∃ zs, a.Preorder xs.reverse zs ∧ zs.Perm ys := by
  induction h with
  | nil => exact ⟨[], .nil, .nil⟩
  | @cons x n ys xs zs hx hc _ _ ihs =>
    obtain ⟨ws, hws, hperm⟩ := ihs
    have hself : a.Preorder [x] (x :: ys) := by simpa using Preorder.cons hx hc .nil
    rw [List.reverse_cons]
    exact ⟨ws ++ x :: ys, hws.append hself, (hperm.append_right _).trans List.perm_append_comm⟩

theorem Preorder.run_eq (h : a.Preorder xs ys) {fuel : Nat} (hf : ys.length ≤ fuel) :
    Worklist.run (fun x => return ([x], (← a.get x).children)) fuel xs = .ok ys := by
  induction fuel generalizing xs ys with
  | zero =>
    cases h with
    | nil => rfl
    | cons => simp at hf
  | succ fuel ih =>
    cases h with
    | nil => rfl
    | @cons x n _ _ _ hx hc hs =>
      have hstep : (do return ([x], (← a.get x).children)) = .ok ([x], n.children) := by
        simp [get_eq_ok hx]
      exact Worklist.run_cons_ok hstep (ih (hc.append hs) (Nat.le_of_succ_le_succ hf))

theorem Preorder.exists_of_forall (hxs : ∀ x ∈ xs, ∃ ys, a.Preorder [x] ys) : ∃ ys, a.Preorder xs ys := by
  induction xs with
  | nil => exact ⟨[], .nil⟩
  | cons x xs ih =>
    obtain ⟨ys, hys⟩ := hxs x (by simp)
    obtain ⟨zs, hzs⟩ := ih fun y hy => hxs y (List.mem_cons_of_mem _ hy)
    exact ⟨ys ++ zs, hys.append hzs⟩

theorem Preorder.live_of_mem (hp : a.Preorder xs ys) (hy : y ∈ ys) : ∃ m, a.find? y = some m := by
  induction hp with
  | nil => simp at hy
  | cons hx _ _ ihc ihs =>
    rcases List.mem_cons.1 hy with rfl | hy
    · exact ⟨_, hx⟩
    · exact (List.mem_append.1 hy).elim ihc ihs

theorem Preorder.length_le (hp : a.Preorder xs ys) (hys : ys.Nodup) : ys.length ≤ a.nextId :=
  length_le_of_live hys fun _ => hp.live_of_mem

theorem Within.live (hxy : a.Within x y) (hx : a.find? x = some n) : ∃ m, a.find? y = some m := by
  rcases hxy with rfl | ⟨ps, hps, -⟩
  · exact ⟨n, hx⟩
  · exact hps.live

namespace Forest

variable (h : a.Forest)
include h

theorem exists_preorder (hx : a.find? x = some n) : ∃ ys, a.Preorder [x] ys := by
  refine h.descend (P := fun x => ∃ ys, a.Preorder [x] ys) ?_ hx
  intro x n hx ih
  obtain ⟨ys, hys⟩ := Preorder.exists_of_forall ih
  exact ⟨x :: (ys ++ []), .cons hx hys .nil⟩

theorem within_iff (hx : a.find? x = some n) (hy : a.find? y = some m) :
    a.Within x y ↔ y = x ∨ ∃ c ∈ n.children, a.Within c y := by
  constructor
  · refine h.ascend (P := fun y => a.Within x y → y = x ∨ ∃ c ∈ n.children, a.Within c y) ?_ ?_ hy
    · intro y m hy hm hxy
      exact hxy.imp_right fun hxy => absurd hxy (not_above_root hy hm)
    · intro y p hp ih hxy
      rcases (h.within_iff_of_hasParent hp).1 hxy with hxy | hxp
      · exact .inl hxy
      right
      rcases ih hxp with rfl | ⟨c, hc, hcp⟩
      · exact ⟨y, (h.mem_children_iff hx).2 hp, .refl a y⟩
      · exact ⟨c, hc, hcp.trans (.inr (h.above_of_hasParent hp))⟩
  · rintro (rfl | ⟨c, hc, hcy⟩)
    · exact .refl a y
    · exact .trans (.inr (h.above_of_hasParent (h.hasParent_of_mem hx hc))) hcy

theorem eq_of_within_of_hasParent (hc : a.HasParent c p) (hd : a.HasParent d p)
    (hcd : a.Within c d) : c = d := by
  rcases (h.within_iff_of_hasParent hd).1 hcd with rfl | hcp
  · rfl
  · exact absurd hcp (h.not_within_of_hasParent hc)

theorem mem_preorder_iff (hp : a.Preorder xs ys) : y ∈ ys ↔ ∃ x ∈ xs, a.Within x y := by
  induction hp with
  | nil => simp
  | @cons x n ys xs zs hx hc hs ihc ihs =>
    have hxy : a.Within x y ↔ y = x ∨ ∃ c ∈ n.children, a.Within c y := by
      by_cases hy : ∃ m, a.find? y = some m
      · obtain ⟨m, hm⟩ := hy
        exact h.within_iff hx hm
      · constructor
        · exact fun hw => absurd (hw.live hx) hy
        · rintro (rfl | ⟨c, hc, hw⟩)
          · exact .refl a y
          · obtain ⟨k, hk⟩ := h.child_live hx c hc
            exact absurd (hw.live hk) hy
    simp only [List.mem_cons, List.mem_append, ihc, ihs, exists_eq_or_imp, hxy, or_assoc]

/-- Subtrees of nodes of which none is above another have no node in common. -/
theorem nodup_preorder (hp : a.Preorder xs ys) (hxs : xs.Nodup)
    (hsep : ∀ c ∈ xs, ∀ d ∈ xs, a.Within c d → c = d) : ys.Nodup := by
  induction hp with
  | nil => exact .nil
  | @cons x n ys xs zs hx hc hs ihc ihs =>
    obtain ⟨hxnot, hxs⟩ := List.nodup_cons.1 hxs
    have hys : ys.Nodup := by
      apply ihc (h.children_nodup hx)
      intro c hc d hd
      exact h.eq_of_within_of_hasParent (h.hasParent_of_mem hx hc) (h.hasParent_of_mem hx hd)
    have hzs : zs.Nodup := by
      apply ihs hxs
      intro c hc d hd
      exact hsep c (List.mem_cons_of_mem _ hc) d (List.mem_cons_of_mem _ hd)
    have hbelow : ∀ y ∈ ys, a.Above x y := by
      intro y hy
      obtain ⟨c, hcx, hcy⟩ := (h.mem_preorder_iff hc).1 hy
      have hxc := h.above_of_hasParent (h.hasParent_of_mem hx hcx)
      rcases hcy with rfl | hcy
      · exact hxc
      · exact hxc.trans hcy
    -- Two nodes above one are one above the other, which the given nodes are not.
    have hapart : ∀ y ∈ zs, ¬ a.Within x y := by
      intro y hy hxy
      obtain ⟨d, hd, hdy⟩ := (h.mem_preorder_iff hs).1 hy
      have hmem : d ∈ x :: xs := List.mem_cons_of_mem _ hd
      have hxd : x = d := (hxy.total hdy).elim (hsep x (by simp) d hmem)
        fun hdx => (hsep d hmem x (by simp) hdx).symm
      exact hxnot (hxd ▸ hd)
    refine List.nodup_cons.2 ⟨?_, List.nodup_append.2 ⟨hys, hzs, ?_⟩⟩
    · intro hmem
      rcases List.mem_append.1 hmem with hmem | hmem
      · exact not_above_self (hbelow x hmem)
      · exact hapart x hmem (.refl a x)
    · rintro y hy _ hz rfl
      exact hapart y hz (.inr (hbelow y hy))

theorem preorder_spec (hx : a.find? x = some n) :
    a.preorder x = .ok (a.subtree x) ∧ a.Preorder [x] (a.subtree x) := by
  obtain ⟨ys, hys⟩ := h.exists_preorder hx
  have hnodup : ys.Nodup := by
    apply h.nodup_preorder hys (by simp)
    simp
  have hrun : a.preorder x = .ok ys := hys.run_eq (Nat.le_succ_of_le (hys.length_le hnodup))
  rw [subtree, hrun]
  exact ⟨rfl, hys⟩

theorem preorder_eq (hx : a.find? x = some n) : a.preorder x = .ok (a.subtree x) :=
  (h.preorder_spec hx).1

theorem nodup_subtree (hx : a.find? x = some n) : (a.subtree x).Nodup := by
  apply h.nodup_preorder (h.preorder_spec hx).2 (by simp)
  simp

theorem exists_preorder_children (hx : a.find? x = some n) :
    ∃ ys, a.Preorder n.children ys ∧ a.subtree x = x :: ys := by
  have hpre := (h.preorder_spec hx).2
  generalize a.subtree x = zs at hpre ⊢
  cases hpre with
  | cons hx' hc hs =>
    obtain rfl := Option.eq_some_unique hx hx'
    cases hs
    exact ⟨_, hc, by simp⟩

theorem descendants_eq_filter (hx : a.find? x = some n) :
    a.descendants x = .ok ((a.subtree x).filter (· != x)) := by
  rw [descendants, h.preorder_eq hx]
  rfl

theorem descendants_eq (hx : a.find? x = some n) :
    ∃ ys, a.descendants x = .ok ys ∧ a.subtree x = x :: ys := by
  obtain ⟨ys, -, hsub⟩ := h.exists_preorder_children hx
  have hnodup : (x :: ys).Nodup := hsub ▸ h.nodup_subtree hx
  have hfilter : (x :: ys).filter (· != x) = ys := by
    rw [← hnodup.erase_eq_filter, List.erase_cons_head]
  exact ⟨ys, by rw [h.descendants_eq_filter hx, hsub, hfilter], hsub⟩

theorem length_subtree_le (hx : a.find? x = some n) : (a.subtree x).length ≤ a.nextId :=
  (h.preorder_spec hx).2.length_le (h.nodup_subtree hx)

theorem mem_subtree_iff (hx : a.find? x = some n) : y ∈ a.subtree x ↔ a.Within x y := by
  rw [h.mem_preorder_iff (h.preorder_spec hx).2]
  simp

theorem live_of_mem_subtree (hx : a.find? x = some n) :
    ∀ y ∈ a.subtree x, ∃ m, a.find? y = some m := fun _ =>
  (h.preorder_spec hx).2.live_of_mem

theorem mem_descendants_iff (hx : a.find? x = some n) (hys : a.descendants x = .ok ys) :
    y ∈ ys ↔ a.Above x y := by
  rw [h.descendants_eq_filter hx] at hys
  obtain rfl := Except.ok.inj hys
  rw [List.mem_filter, h.mem_subtree_iff hx, bne_iff_ne]
  constructor
  · exact fun ⟨hxy, hne⟩ => hxy.resolve_left hne
  · intro hxy
    refine ⟨.inr hxy, ?_⟩
    rintro rfl
    exact not_above_self hxy

end Forest

end DocTree.Arena
