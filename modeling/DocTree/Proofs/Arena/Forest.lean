import DocTree.Arena.Navigation
import DocTree.Proofs.Arena.Mapping
import Mathlib.Data.List.Perm.Subperm

namespace DocTree.Arena

def HasChild (a : Arena) (p c : NodeId) : Prop := ∃ n, a.find? p = some n ∧ c ∈ n.children

def HasParent (a : Arena) (c p : NodeId) : Prop := ∃ n, a.find? c = some n ∧ n.parent = some p

/-- The ancestors of a node, nearest first, up to one without parent. -/
inductive Lineage (a : Arena) : NodeId → List NodeId → Prop
  | root : a.find? x = some n → n.parent = none → Lineage a x []
  | under : a.HasParent x p → Lineage a p ps → Lineage a x (p :: ps)

structure Forest (a : Arena) : Prop where
  id_eq : ∀ {x n}, a.find? x = some n → n.id = x
  live_eq : a.live = a.nodes.length
  hasChild_iff : ∀ {p c}, a.HasChild p c ↔ a.HasParent c p
  children_nodup : ∀ {x n}, a.find? x = some n → n.children.Nodup
  lineage : ∀ {x n}, a.find? x = some n → ∃ ps, a.Lineage x ps

def Above (a : Arena) (p x : NodeId) : Prop := ∃ ps, a.Lineage x ps ∧ p ∈ ps

def Within (a : Arena) (r x : NodeId) : Prop := x = r ∨ a.Above r x

variable {a b : Arena} {x y z p q r c : NodeId} {ps qs xs : List NodeId} {n : Node}

theorem HasParent.unique (hp : a.HasParent x p) (hq : a.HasParent x q) : p = q := by
  obtain ⟨n, hn, hp⟩ := hp
  obtain ⟨m, hm, hq⟩ := hq
  simp_all

theorem HasParent.ne_root (h : a.HasParent x p) (hx : a.find? x = some n) : n.parent ≠ none := by
  obtain ⟨m, hm, hp⟩ := h
  simp_all

theorem Lineage.unique (hp : a.Lineage x ps) (hq : a.Lineage x qs) : ps = qs := by
  induction hp generalizing qs with
  | root hx hn =>
    cases hq with
    | root => rfl
    | under h _ => exact absurd hn (h.ne_root hx)
  | under h _ ih =>
    cases hq with
    | root hx hn => exact absurd hn (h.ne_root hx)
    | under h' hq =>
      obtain rfl := h.unique h'
      rw [ih hq]

theorem Lineage.live (h : a.Lineage x ps) : ∃ n, a.find? x = some n := by
  cases h with
  | root hx _ => exact ⟨_, hx⟩
  | under h _ =>
    obtain ⟨n, hx, _⟩ := h
    exact ⟨n, hx⟩

theorem Lineage.of_append (h : a.Lineage x (ps ++ p :: qs)) : a.Lineage p qs := by
  induction ps generalizing x with
  | nil =>
    cases h with
    | under _ h => exact h
  | cons q ps ih =>
    cases h with
    | under _ h => exact ih h

theorem Lineage.notMem (h : a.Lineage x ps) : x ∉ ps := by
  intro hx
  obtain ⟨qs, rs, rfl⟩ := List.append_of_mem hx
  have hlen := congrArg List.length (h.unique h.of_append)
  simp at hlen
  omega

theorem Lineage.nodup (h : a.Lineage x ps) : ps.Nodup := by
  induction h with
  | root => exact .nil
  | under _ hp ih => exact List.nodup_cons.2 ⟨hp.notMem, ih⟩

theorem Lineage.live_of_mem (h : a.Lineage x ps) (hp : p ∈ ps) : ∃ n, a.find? p = some n := by
  obtain ⟨qs, rs, rfl⟩ := List.append_of_mem hp
  exact h.of_append.live

theorem length_le_of_live (hnodup : xs.Nodup) (hlive : ∀ x ∈ xs, ∃ n, a.find? x = some n) :
    xs.length ≤ a.nextId := by
  have hsub : xs ⊆ List.range a.nextId := by
    intro x hx
    obtain ⟨n, hn⟩ := hlive x hx
    exact List.mem_range.2 (find?_lt hn)
  have hlen := (hnodup.subperm hsub).length_le
  rwa [List.length_range] at hlen

theorem Lineage.length_lt (h : a.Lineage x ps) : ps.length < a.nextId := by
  have hnodup : (x :: ps).Nodup := List.nodup_cons.2 ⟨h.notMem, h.nodup⟩
  have hlen := length_le_of_live (a := a) hnodup fun y hy => by
    rcases List.mem_cons.1 hy with rfl | hy
    · exact h.live
    · exact h.live_of_mem hy
  rwa [List.length_cons] at hlen

theorem Lineage.congr (h : a.Lineage x ps)
    (hb : ∀ y ∈ x :: ps, ∀ n, a.find? y = some n → ∃ m, b.find? y = some m ∧ m.parent = n.parent) :
    b.Lineage x ps := by
  induction h with
  | root hx hn =>
    obtain ⟨m, hm, hp⟩ := hb _ (by simp) _ hx
    exact .root hm (hp.trans hn)
  | under h _ ih =>
    obtain ⟨n, hx, hn⟩ := h
    obtain ⟨m, hm, hp⟩ := hb _ (by simp) _ hx
    exact .under ⟨m, hm, hp.trans hn⟩ (ih fun y hy => hb y (List.mem_cons_of_mem _ hy))

theorem above_iff_of_hasParent (h : a.HasParent x p) (hp : ∃ ps, a.Lineage p ps) :
    a.Above q x ↔ q = p ∨ a.Above q p := by
  obtain ⟨ps, hps⟩ := hp
  constructor
  · rintro ⟨qs, hqs, hq⟩
    obtain rfl := hqs.unique (.under h hps)
    exact (List.mem_cons.1 hq).imp_right fun hq => ⟨ps, hps, hq⟩
  · rintro (rfl | ⟨qs, hqs, hq⟩)
    · exact ⟨_, .under h hps, by simp⟩
    · exact ⟨_, .under h hqs, List.mem_cons_of_mem _ hq⟩

theorem not_above_root (hx : a.find? x = some n) (hn : n.parent = none) : ¬ a.Above q x := by
  rintro ⟨qs, hqs, hq⟩
  obtain rfl := hqs.unique (.root hx hn)
  simp at hq

theorem not_above_self : ¬ a.Above x x := fun ⟨_, h, hx⟩ => h.notMem hx

theorem Above.trans (hpx : a.Above p x) (hxy : a.Above x y) : a.Above p y := by
  obtain ⟨ps, hps, hp⟩ := hpx
  obtain ⟨qs, hqs, hx⟩ := hxy
  obtain ⟨rs, ss, rfl⟩ := List.append_of_mem hx
  obtain rfl := hps.unique hqs.of_append
  exact ⟨_, hqs, by simp [hp]⟩

theorem Within.refl (a : Arena) (x : NodeId) : a.Within x x := .inl rfl

theorem Within.trans (hpx : a.Within p x) (hxy : a.Within x y) : a.Within p y := by
  rcases hxy with rfl | hxy
  · exact hpx
  · rcases hpx with rfl | hpx
    · exact .inr hxy
    · exact .inr (hpx.trans hxy)

theorem Within.total (hpx : a.Within p x) (hqx : a.Within q x) : a.Within p q ∨ a.Within q p := by
  rcases hpx with rfl | ⟨ps, hps, hp⟩
  · exact .inr hqx
  rcases hqx with rfl | ⟨qs, hqs, hq⟩
  · exact .inl (.inr ⟨ps, hps, hp⟩)
  obtain rfl := hps.unique hqs
  obtain ⟨rs, ss, rfl⟩ := List.append_of_mem hp
  rcases List.mem_append.1 hq with hq | hq
  · obtain ⟨ts, us, rfl⟩ := List.append_of_mem hq
    rw [List.append_assoc, List.cons_append] at hps
    exact .inl (.inr ⟨us ++ p :: ss, hps.of_append, by simp⟩)
  · rcases List.mem_cons.1 hq with rfl | hq
    · exact .inl (.refl a q)
    · exact .inr (.inr ⟨ss, hps.of_append, hq⟩)

namespace Forest

variable (h : a.Forest)
include h

theorem find?_id_of_mem_nodes (hn : n ∈ a.nodes) : a.find? n.id = some n := by
  obtain ⟨x, hx⟩ := mem_nodes_iff.1 hn
  rwa [h.id_eq hx]

theorem parent_live (hp : a.HasParent c p) : ∃ n, a.find? p = some n ∧ c ∈ n.children :=
  h.hasChild_iff.2 hp

theorem hasParent_of_mem (hp : a.find? p = some n) (hc : c ∈ n.children) : a.HasParent c p :=
  h.hasChild_iff.1 ⟨n, hp, hc⟩

theorem parent_eq_of_mem {m : Node} (hp : a.find? p = some n) (hc : c ∈ n.children)
    (hm : a.find? c = some m) : m.parent = some p := by
  obtain ⟨k, hk, hkp⟩ := h.hasParent_of_mem hp hc
  obtain rfl := Option.eq_some_unique hm hk
  exact hkp

theorem mem_children_iff (hp : a.find? p = some n) : c ∈ n.children ↔ a.HasParent c p := by
  constructor
  · exact h.hasParent_of_mem hp
  · intro hc
    obtain ⟨m, hm, hc⟩ := h.parent_live hc
    simp_all

theorem lineage_of_parent (hp : a.HasParent c p) : ∃ ps, a.Lineage p ps := by
  obtain ⟨n, hn, -⟩ := h.parent_live hp
  exact h.lineage hn

theorem above_iff (hc : a.HasParent c p) : a.Above q c ↔ q = p ∨ a.Above q p :=
  above_iff_of_hasParent hc (h.lineage_of_parent hc)

theorem above_of_hasParent (hc : a.HasParent c p) : a.Above p c := (h.above_iff hc).2 (.inl rfl)

theorem not_within_of_hasParent (hc : a.HasParent c p) : ¬ a.Within c p := by
  have hpc := h.above_of_hasParent hc
  rintro (rfl | hcp)
  · exact not_above_self hpc
  · exact not_above_self (hcp.trans hpc)

theorem ne_of_hasParent (hc : a.HasParent c p) : c ≠ p := fun hcp =>
  h.not_within_of_hasParent hc (.inl hcp.symm)

theorem filter_children_eq_self (hp : a.find? p = some n) (hc : ¬ a.HasParent c p) :
    n.children.filter (· != c) = n.children := by
  refine List.filter_eq_self.2 fun d hd => bne_iff_ne.2 ?_
  rintro rfl
  exact hc (h.hasParent_of_mem hp hd)

theorem within_iff_of_hasParent (hc : a.HasParent c p) : a.Within q c ↔ c = q ∨ a.Within q p := by
  rw [Within, h.above_iff hc, Within, eq_comm (a := q) (b := p)]

theorem ascend {P : NodeId → Prop}
    (root : ∀ x n, a.find? x = some n → n.parent = none → P x)
    (under : ∀ x p, a.HasParent x p → P p → P x) (hx : a.find? x = some n) : P x := by
  obtain ⟨ps, hps⟩ := h.lineage hx
  clear hx
  induction hps with
  | root hx hn => exact root _ _ hx hn
  | under hp _ ih => exact under _ _ hp ih

theorem descend {P : NodeId → Prop}
    (step : ∀ x n, a.find? x = some n → (∀ c ∈ n.children, P c) → P x)
    (hx : a.find? x = some n) : P x := by
  -- `k` bounds how much longer the lineages below `x` can get.
  suffices hk : ∀ k x ps, a.Lineage x ps → ps.length + k ≥ a.nextId → P x by
    obtain ⟨ps, hps⟩ := h.lineage hx
    exact hk a.nextId x ps hps (Nat.le_add_left ..)
  intro k
  induction k with
  | zero =>
    intro x ps hps hk
    have := hps.length_lt
    omega
  | succ k ih =>
    intro x ps hps hk
    obtain ⟨m, hm⟩ := hps.live
    apply step x m hm
    intro c hc
    have hlen : (x :: ps).length + k ≥ a.nextId := by
      rw [List.length_cons]
      omega
    exact ih c (x :: ps) (.under (h.hasParent_of_mem hm hc) hps) hlen

end Forest

end DocTree.Arena
