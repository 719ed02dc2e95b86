import DocTree.Proofs.Arena.Subtree
import Mathlib.Data.List.Nodup

namespace DocTree.Arena

/-- A walk from `x` gives these nodes to its visitor, one after another until a visit fails,
whatever the visitor does with them. -/
def Visits (a : Arena) (x : NodeId) (ns : List Node) : Prop :=
  ∀ (σ : Type) (visit : Node → EStateM Error σ Unit), a.traverse x visit = ns.forM visit

def tops (a : Arena) : List NodeId := (a.nodes.filter (·.parent.isNone)).map (·.id)

structure WalkLaws (a : Arena) : Prop where
  visits : ∀ {x n}, a.find? x = some n → ∃ ns : List Node, a.Visits x ns ∧
    (∀ m ∈ ns, a.find? m.id = some m) ∧ a.Preorder [x] (ns.map (·.id)) ∧ (ns.map (·.id)).Nodup
  contains_iff : ∀ {x y},
    a.contains x y = .ok true ↔ ∃ ys, a.descendants x = .ok ys ∧ y ∈ ys
  contains_ok : ∀ {x y n m}, a.find? x = some n → a.find? y = some m →
    ∃ b, a.contains x y = .ok b
  root : ∀ {y n}, a.find? y = some n → ∃ r ns, a.root y = .ok r ∧ a.Visits r ns ∧ n ∈ ns
  cover : ∃ rows, List.Forall₂ a.Visits a.tops rows ∧ rows.flatten.Nodup ∧
    ∀ n, n ∈ rows.flatten ↔ n ∈ a.nodes

variable {a : Arena} {x y : NodeId} {n m : Node} {xs ys : List NodeId}

theorem forM_visit_eq {σ : Type} (visit : Node → EStateM Error σ Unit)
    (hys : ∀ y ∈ ys, ∃ n, a.find? y = some n) :
    (ys.forM fun y => do visit (← a.get y) : EStateM Error σ Unit) =
      (ys.filterMap a.find?).forM visit := by
  induction ys with
  | nil => rfl
  | cons y ys ih =>
    obtain ⟨⟨n, hn⟩, hys⟩ := List.forall_mem_cons.1 hys
    rw [List.filterMap_cons_some hn, List.forM, List.forM, get_eq_ok hn, liftM_ok, pure_bind,
      ih hys]

theorem ancestors_eq_error (hy : a.find? y = none) :
    a.ancestors y = .error (.unknownNode y) := by
  simp [ancestors, climb, Arena.parent, get_eq_error hy]

namespace Forest

variable (h : a.Forest)
include h

theorem map_id_filterMap (hys : ∀ y ∈ ys, ∃ n, a.find? y = some n) :
    (ys.filterMap a.find?).map (·.id) = ys := by
  induction ys with
  | nil => rfl
  | cons y ys ih =>
    obtain ⟨⟨n, hn⟩, hys⟩ := List.forall_mem_cons.1 hys
    rw [List.filterMap_cons_some hn, List.map_cons, h.id_eq hn, ih hys]

theorem visits_subtree (hx : a.find? x = some n) :
    a.Visits x ((a.subtree x).filterMap a.find?) := by
  intro σ visit
  rw [traverse, h.preorder_eq hx, liftM_ok, pure_bind,
    forM_visit_eq visit (h.live_of_mem_subtree hx)]

theorem contains_iff :
    a.contains x y = .ok true ↔ ∃ ys, a.descendants x = .ok ys ∧ y ∈ ys := by
  cases hx : a.find? x with
  | none => simp [contains, get_eq_error hx, descendants, preorder, Worklist.run_cons]
  | some n =>
    obtain ⟨ys, hys, -⟩ := h.descendants_eq hx
    simp only [hys, Except.ok.injEq, exists_eq_left', h.mem_descendants_iff hx hys]
    cases hy : a.find? y with
    | none =>
      have hnot : ¬ a.Above x y := by
        rintro ⟨ps, hps, -⟩
        obtain ⟨m, hm⟩ := hps.live
        cases hy.symm.trans hm
      simp [contains, get_eq_ok hx, ancestors_eq_error hy, hnot]
    | some m => exact (h.contains_decides hx hy).eq_true_iff

theorem nodup_filterMap (hys : ys.Nodup) : (ys.filterMap a.find?).Nodup :=
  List.Nodup.filterMap (fun _ _ _ hx hy => (h.id_eq hx).symm.trans (h.id_eq hy)) hys

theorem nodup_tops : a.tops.Nodup := by
  have hnodes : a.nodes.Nodup := by
    rw [nodes_eq_filterMap]
    exact h.nodup_filterMap List.nodup_range
  refine List.Nodup.map_on (fun n hn m hm hid => ?_) (hnodes.filter _)
  have hfind := h.find?_id_of_mem_nodes (List.mem_of_mem_filter hn)
  rw [hid] at hfind
  exact Option.eq_some_unique hfind (h.find?_id_of_mem_nodes (List.mem_of_mem_filter hm))

theorem mem_tops_iff : x ∈ a.tops ↔ ∃ n, a.find? x = some n ∧ n.parent = none := by
  simp only [tops, List.mem_map, List.mem_filter, Option.isNone_iff_eq_none]
  constructor
  · rintro ⟨n, ⟨hn, hp⟩, rfl⟩
    exact ⟨n, h.find?_id_of_mem_nodes hn, hp⟩
  · rintro ⟨n, hx, hp⟩
    exact ⟨n, ⟨mem_nodes_iff.2 ⟨x, hx⟩, hp⟩, h.id_eq hx⟩

theorem preorder_flatMap (hxs : ∀ x ∈ xs, ∃ n, a.find? x = some n) :
    a.Preorder xs (xs.flatMap a.subtree) := by
  induction xs with
  | nil => exact .nil
  | cons x xs ih =>
    obtain ⟨⟨n, hx⟩, hxs⟩ := List.forall_mem_cons.1 hxs
    exact (h.preorder_spec hx).2.append (ih hxs)

theorem preorder_tops : a.Preorder a.tops (a.tops.flatMap a.subtree) := by
  refine h.preorder_flatMap fun x hx => ?_
  obtain ⟨n, hn, -⟩ := h.mem_tops_iff.1 hx
  exact ⟨n, hn⟩

theorem nodup_flatMap_tops : (a.tops.flatMap a.subtree).Nodup := by
  refine h.nodup_preorder h.preorder_tops h.nodup_tops fun x _ y hy hxy => ?_
  obtain ⟨m, hm, hp⟩ := h.mem_tops_iff.1 hy
  exact (hxy.resolve_right (not_above_root hm hp)).symm

theorem mem_flatMap_tops (hy : a.find? y = some m) : y ∈ a.tops.flatMap a.subtree := by
  obtain ⟨ps, hps⟩ := h.lineage hy
  obtain ⟨r, n, -, hr, hn, hry⟩ := hps.root_spec
  exact (h.mem_preorder_iff h.preorder_tops).2 ⟨r, h.mem_tops_iff.2 ⟨n, hr, hn⟩, hry⟩

theorem walkLaws : a.WalkLaws where
  visits {x n} hx := by
    have hlive := h.live_of_mem_subtree hx
    refine ⟨_, h.visits_subtree hx, fun m hm => ?_, ?_, ?_⟩
    · obtain ⟨y, -, hy⟩ := List.mem_filterMap.1 hm
      rwa [h.id_eq hy]
    · rw [h.map_id_filterMap hlive]
      exact (h.preorder_spec hx).2
    · rw [h.map_id_filterMap hlive]
      exact h.nodup_subtree hx
  contains_iff := h.contains_iff
  contains_ok hx hy := by
    obtain ⟨b, hb, -⟩ := h.contains_decides hx hy
    exact ⟨b, hb⟩
  root {y n} hy := by
    obtain ⟨ps, hps⟩ := h.lineage hy
    obtain ⟨r, m, hroot, hr, -, hry⟩ := hps.root_spec
    exact ⟨r, _, hroot, h.visits_subtree hr,
      List.mem_filterMap.2 ⟨y, (h.mem_subtree_iff hr).2 hry, hy⟩⟩
  cover := by
    refine ⟨a.tops.map fun r => (a.subtree r).filterMap a.find?, ?_, ?_⟩
    · rw [List.forall₂_map_right_iff, List.forall₂_same]
      intro r hr
      obtain ⟨n, hn, -⟩ := h.mem_tops_iff.1 hr
      exact h.visits_subtree hn
    rw [← List.flatMap_def, ← List.filterMap_flatMap]
    refine ⟨h.nodup_filterMap h.nodup_flatMap_tops, fun n => ?_⟩
    rw [List.mem_filterMap, mem_nodes_iff]
    constructor
    · exact fun ⟨y, _, hy⟩ => ⟨y, hy⟩
    · exact fun ⟨y, hy⟩ => ⟨y, h.mem_flatMap_tops hy, hy⟩

end Forest

end DocTree.Arena
