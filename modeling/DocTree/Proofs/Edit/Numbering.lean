import DocTree.Proofs.Edit.Cloned

namespace DocTree

namespace Arena

/-- `b` is `a` with copies of `ys`, the inclusive subtree of the node `n`, from the first new number
on.  The first copy stands alone, and all belong to one document: to the first copy if that is one. -/
structure Numbered (a : Arena) (n : Node) (ys : List NodeId) (b : Arena) : Prop where
  nextId : b.nextId = a.nextId + ys.length
  live : b.live = a.live + ys.length
  old : ∀ y < a.nextId, b.find? y = a.find? y
  copies : ∀ i y m, ys[i]? = some y → a.find? y = some m → b.find? (a.nextId + i) = some
    { id := a.nextId + i
      parent := if i = 0 then none else m.parent.map (a.nextId + ys.idxOf ·)
      children := m.children.map (a.nextId + ys.idxOf ·)
      owner := if i = 0 then n.owner else if n.isDocument then some a.nextId else n.owner
      data := m.data }

variable {a b : Arena} {x y d : NodeId} {n : Node} {cs ys : List NodeId} {i : Nat}

theorem idxOf_of_getElem? (hys : ys.Nodup) (hy : ys[i]? = some y) : ys.idxOf y = i := by
  obtain ⟨hi, rfl⟩ := List.getElem?_eq_some_iff.1 hy
  exact hys.idxOf_getElem i hi

theorem Cloned.numbered (hc : Cloned a n d cs b) (h : a.WellFormed) (hx : a.find? x = some n)
    (hcopies : Copies a (a.push n.owner n.data) a.nextId n.children b) :
    a.Numbered n (a.subtree x) b := by
  obtain ⟨zs, hzs, hsub⟩ := h.exists_preorder_children hx
  have hnodup := h.nodup_subtree hx
  rw [hsub] at hnodup ⊢
  have hself : a.nextId + (x :: zs).idxOf x = a.nextId := by
    rw [List.idxOf_cons_self, Nat.add_zero]
  have hnum : ∀ i y, zs[i]? = some y → a.nextId + (x :: zs).idxOf y = a.nextId + 1 + i := by
    intro i y hy
    rw [idxOf_of_getElem? (i := i + 1) hnodup hy]
    exact (Nat.succ_add_eq_add_succ _ i).symm
  obtain ⟨hnext, rfl, hbelow⟩ := hc.below.numbered h.toForest hzs hnum fun c hcx k hk => by
    rw [h.parent_eq_of_mem hx hcx hk, Option.map_some, hself]
  obtain ⟨j, hnext', hlive, hfree⟩ := hcopies.frame
  rw [nextId_push] at hnext' hfree
  obtain rfl : j = zs.length := Nat.add_left_cancel (hnext'.symm.trans hnext)
  refine ⟨?nextId, ?live, fun y hlt => ?old, fun i y m hy hm => ?copies⟩
  case nextId => rw [hnext, List.length_cons, Nat.succ_add_eq_add_succ]
  case live =>
    rw [hlive, List.length_cons]
    exact Nat.succ_add_eq_add_succ ..
  case old =>
    cases hy : a.find? y with
    | some m => exact hc.keeps hy
    | none =>
      refine hfree y (Nat.lt_succ_of_lt hlt) ?_
      rw [find?_push, if_neg (Nat.ne_of_lt hlt), hy]
  case copies =>
    have hdocument : (if n.isDocument then some a.nextId else n.owner) = some d := hc.document
    rcases i with _ | i
    · obtain rfl : x = y := by simpa using hy
      obtain rfl := Option.eq_some_unique hx hm
      rw [Nat.add_zero, hc.top]
      rfl
    · rw [← Nat.succ_add_eq_add_succ, hbelow i y m hy hm, hdocument]
      rfl

/-- A deep copy always succeeds and is numbered in pre-order; the first new number is its own.  With
numbers left for all its nodes, the arena stays one that edits reach. -/
theorem Reachable.clone_numbered (ha : a.Reachable) (hx : a.find? x = some n) :
    ∃ ys b, a.preorder x = .ok ys ∧ a.Preorder [x] ys ∧ ys.Nodup ∧
      (Edit.clone x true).run a = .ok a.nextId b ∧ a.Numbered n ys b ∧
      (a.nextId + ys.length ≤ 2 ^ 32 → b.Reachable) := by
  have h := ha.wellFormed
  obtain ⟨hrun, hpre⟩ := h.preorder_spec hx
  obtain ⟨d, cs, b, hclone, hc⟩ := Edit.run_clone_cloned h hx
  obtain ⟨b', hclone', hcopies⟩ := Edit.run_clone_deep h hx
  obtain ⟨-, rfl⟩ := EStateM.Result.ok.inj (hclone.symm.trans hclone')
  have hnumbered := hc.numbered h hx hcopies
  refine ⟨a.subtree x, b, hrun, hpre, h.nodup_subtree hx, hclone, hnumbered, fun hle => ?_⟩
  have hstep : Operation.step a (.clone x true) = b := by
    have hperform : (Operation.clone x true).perform.run a = .ok () b := by
      change ((fun _ => ()) <$> Edit.clone x true).run a = _
      rw [run_map, hclone]
    rw [Operation.step, hperform]
  rw [← hstep]
  exact ha.step (by rwa [hstep, hnumbered.nextId])

theorem clone_numbered_document : ∃ a b : Arena, a.Reachable ∧
    (∃ n, a.find? 0 = some n ∧ a.Numbered n [0, 2, 3, 4] b) ∧
    (Edit.clone 0 true).run a = .ok 5 b ∧ a.ownerDocument 3 = .ok (some 1) ∧
    b.ownerDocument 7 = .ok (some 5) := by
  have h : (Operation.run [.createDocument, .createDocument, .createElement 0 "a",
      .createElement 0 "b", .createComment 0 "c", .append 2 [3, 4], .appendChild 0 2,
      .adopt 1 3] .empty).Reachable := ⟨⟨_, rfl⟩, by decide⟩
  obtain ⟨ys, b, hys, -, -, hrun, hnumbered, -⟩ := h.clone_numbered (x := 0) rfl
  obtain rfl : ys = [0, 2, 3, 4] := Except.ok.inj (hys.symm.trans rfl)
  cases hrun
  exact ⟨_, _, h, ⟨_, rfl, hnumbered⟩, rfl, rfl, rfl⟩

end Arena

end DocTree
