import DocTree.Arena.Cloning
import DocTree.Proofs.Arena.Copying
import DocTree.Proofs.Edit.Insertion

namespace DocTree.Edit

open Arena (Copies Ready Preorder)

variable {a b : Arena} {x p d : NodeId} {k n : Node} {xs ys : List NodeId}

theorem run_copy (hx : a.find? x = some n) :
    (copy x).run a = .ok a.nextId (a.push n.owner n.data) := by
  simp [copy, Arena.get_eq_ok hx, run_create]

theorem run_copyUnder (h : a.WellFormed) (hr : Ready a b p k (x :: xs)) (hx : a.find? x = some n)
    (hd : k.document = some d) :
    (copyUnder (x, p)).run b =
      .ok ([b.nextId], n.children.map (·, b.nextId)) (b.grow p d n) := by
  have hcopy := run_copy (hr.keeps hx)
  have hpush := hr.wellFormed.push ((h.mayOwn hx).mono hr.keeps)
  have happend : (appendChild p b.nextId).run (b.push n.owner n.data) =
      .ok b.nextId (b.grow p d n) :=
    run_insertBefore hpush (hr.admits hx) (hr.spare hx) (by simp) rfl hd
  have hlive : (b.grow p d n).find? x = some n :=
    hr.wellFormed.find?_grow_of_ne hr.parent d n (hr.keeps hx) (hr.ne_parent hx)
  simp [copyUnder, hcopy, happend, Arena.childNodes, Arena.get_eq_ok hlive]

theorem run_copies (h : a.WellFormed) (hpre : a.Preorder xs ys) (hr : Ready a b p k xs) :
    ∃ b' out, Copies a b p xs b' ∧ ∀ fuel rest,
      (Worklist.run copyUnder (ys.length + fuel) (xs.map (·, p) ++ rest)).run b =
        ((out ++ ·) <$> Worklist.run copyUnder fuel rest).run b' := by
  induction hpre generalizing b p k with
  | nil => exact ⟨b, [], .nil, fun fuel rest => by simp⟩
  | @cons x n ys xs zs hx _ _ ihc ihs =>
    obtain ⟨d, -, hd, -⟩ := hr.wellFormed.document_live hr.parent
    have hchild := hr.child h hx hd
    obtain ⟨b₁, out₁, hc₁, hrun₁⟩ := ihc hchild
    obtain ⟨b₂, out₂, hc₂, hrun₂⟩ := ihs (hr.next hx (hchild.copied h hc₁))
    refine ⟨b₂, b.nextId :: (out₁ ++ out₂), .cons hx hr.parent hd hc₁ hc₂, fun fuel rest => ?_⟩
    have hlen : (x :: (ys ++ zs)).length + fuel = ys.length + (zs.length + fuel) + 1 := by
      simp only [List.length_cons, List.length_append]
      omega
    rw [hlen, List.map_cons, List.cons_append, Worklist.run_cons, EStateM.run_bind,
      run_copyUnder h hr hx hd]
    simp only [bind_pure_comp, run_map, hrun₁, hrun₂]
    cases EStateM.run (Worklist.run copyUnder fuel rest) b₂ <;> simp

theorem run_clone_shallow (hx : a.find? x = some n) :
    (clone x false).run a = .ok a.nextId (a.push n.owner n.data) := by
  simp [clone, run_copy hx]

theorem run_clone_deep (h : a.WellFormed) (hx : a.find? x = some n) :
    ∃ b, (clone x true).run a = .ok a.nextId b ∧
      Copies a (a.push n.owner n.data) a.nextId n.children b := by
  obtain ⟨ys, hys, hsub⟩ := h.exists_preorder_children hx
  obtain ⟨b, out, hc, hrun⟩ := run_copies h hys (h.ready hx)
  refine ⟨b, ?_, hc⟩
  have hnodup : (x :: ys).Nodup := hsub ▸ h.nodup_subtree hx
  have hlen : ys.length ≤ a.nextId := hys.length_le (List.nodup_cons.1 hnodup).2
  have hrun := hrun (a.nextId - ys.length) []
  rw [Nat.add_sub_cancel' hlen, List.append_nil] at hrun
  have hchildren : (a.push n.owner n.data).childNodes x = .ok n.children := by
    simp [Arena.childNodes, Arena.get_eq_ok (Arena.find?_push_of_live hx)]
  simp [clone, run_copy hx, hchildren, hrun]

theorem stepwise_clone (h : a.WellFormed) (x : NodeId) (deep : Bool) : (clone x deep).Stepwise a := by
  cases hx : a.find? x with
  | none =>
    exact stepwise_of_error (e := .unknownNode x) (by simp [clone, copy, Arena.get_eq_error hx])
  | some n =>
    cases deep with
    | false => exact stepwise_of_ok (run_clone_shallow hx) (.single (.push (h.mayOwn hx)))
    | true =>
      obtain ⟨b, hrun, hc⟩ := run_clone_deep h hx
      exact stepwise_of_ok hrun (.head (.push (h.mayOwn hx)) ((h.ready hx).changes h hc))

end DocTree.Edit
