import DocTree.Proofs.Arena.Owners
import DocTree.Proofs.Edit.Operation

namespace DocTree.Arena

variable {a : Arena} {x d : NodeId} {m n : Node}

structure Adopted (a : Arena) (d x : NodeId) (b : Arena) : Prop where
  owner : ∀ y, a.Within x y → b.ownerDocument y = .ok (some d)
  within : ∀ y n, a.Within x y → a.find? y = some n → b.find? y = some { n with owner := some d }
  others : ∀ y, ¬ a.Within x y → b.find? y = a.find? y
  nextId : b.nextId = a.nextId
  live : b.live = a.live

namespace WellFormed

variable (h : a.WellFormed)
include h

theorem adopted_own (hx : a.find? x = some n) (hn : n.isDocument = false) :
    a.Adopted d x (a.own (a.subtree x) d) := by
  have hwithin : ∀ y k, a.Within x y → a.find? y = some k →
      (a.own (a.subtree x) d).find? y = some { k with owner := some d } := by
    intro y k hxy hy
    rw [find?_own, hy, Option.map_some, if_pos ((h.mem_subtree_iff hx).2 hxy)]
  refine
    { owner := ?owner
      within := hwithin
      others := ?others
      nextId := nextId_own ..
      live := rfl }
  case owner =>
    intro y hxy
    obtain ⟨k, hy⟩ := hxy.live hx
    have hk := h.not_document_of_mem_subtree hx hn ((h.mem_subtree_iff hx).2 hxy) hy
    exact get_map_eq_ok_iff.2 ⟨_, hwithin y k hxy hy, Node.ownerDocument_eq_owner hk⟩
  case others =>
    intro y hxy
    simp only [find?_own, mt (h.mem_subtree_iff hx).1 hxy, if_false, Option.map_id']

theorem run_adopt_own (hx : a.find? x = some n) (hn : n.isDocument = false)
    (hd : a.find? d = some m) (hdoc : m.isDocument = true) :
    (Edit.adopt d x).run (a.own (a.subtree x) d) = .ok x (a.own (a.subtree x) d) := by
  have hself : (a.own (a.subtree x) d).own (a.subtree x) d = a.own (a.subtree x) d := by
    refine own_eq_self fun y hy k hk => ?_
    obtain ⟨j, -, rfl⟩ := find?_mapNodes_eq_some hk
    exact if_pos hy
  have hd' : (a.own (a.subtree x) d).expectDocument d = .ok () :=
    expectDocument_eq_ok_iff.2 ⟨_, find?_mapNodes_of_live hd, hdoc⟩
  have hforest := (h.own_subtree hx hn hd hdoc).toForest
  rw [Edit.run_adopt hforest hd' (find?_mapNodes_of_live hx) hn, h.subtree_own hx d, hself]

end WellFormed

theorem Reachable.adopt_exact (ha : a.Reachable) (d x : NodeId) :
    ((∃ y b, (Edit.adopt d x).run a = .ok y b) ↔
      a.kind d = .ok .document ∧ ∃ k, a.kind x = .ok k ∧ k ≠ .document) ∧
    ∀ y b, (Edit.adopt d x).run a = .ok y b →
      y = x ∧ a.Adopted d x b ∧ (Edit.adopt d x).run b = .ok x b := by
  have h := ha.wellFormed
  obtain ⟨e, hrun⟩ | ⟨n, m, hx, hn, hd, hdoc, hrun⟩ := Edit.run_adopt_cases h.toForest d x
  · have hrefused : ¬ (a.kind d = .ok .document ∧ ∃ k, a.kind x = .ok k ∧ k ≠ .document) := by
      rintro ⟨hd, k, hx, hk⟩
      obtain ⟨m, hm, hdoc⟩ := kind_eq_ok_iff.1 hd
      obtain ⟨n, hn, rfl⟩ := kind_eq_ok_iff.1 hx
      have hd : a.expectDocument d = .ok () :=
        expectDocument_eq_ok_iff.2 ⟨m, hm, decide_eq_true hdoc⟩
      cases hrun.symm.trans (Edit.run_adopt h.toForest hd hn (decide_eq_false hk))
    simp [hrun, hrefused]
  · have hkinds : a.kind d = .ok .document ∧ ∃ k, a.kind x = .ok k ∧ k ≠ .document :=
      ⟨kind_eq_ok_iff.2 ⟨m, hd, of_decide_eq_true hdoc⟩,
        n.kind, kind_eq_ok_iff.2 ⟨n, hx, rfl⟩, of_decide_eq_false hn⟩
    refine ⟨iff_of_true ⟨_, _, hrun⟩ hkinds, ?_⟩
    rw [hrun]
    rintro _ _ ⟨⟩
    exact ⟨rfl, h.adopted_own hx hn, h.run_adopt_own hx hn hd hdoc⟩

theorem adopt_exact_attached : ∃ a b : Arena, a.Reachable ∧
    (Edit.adopt 1 2).run a = .ok 2 b ∧
    (a.kind 1 = .ok .document ∧ ∃ k, a.kind 2 = .ok k ∧ k ≠ .document) ∧
    a.parent 2 = .ok (some 0) ∧ a.Adopted 1 2 b ∧ (Edit.adopt 1 2).run b = .ok 2 b := by
  have h : (Operation.run [.createDocument, .createDocument, .createElement 0 "a",
      .createComment 0 "b", .appendChild 2 3, .appendChild 0 2] .empty).Reachable :=
    ⟨⟨_, rfl⟩, by decide⟩
  obtain ⟨hiff, hall⟩ := h.adopt_exact 1 2
  exact ⟨_, _, h, rfl, hiff.1 ⟨2, _, rfl⟩, rfl, (hall _ _ rfl).2⟩

end DocTree.Arena
