import DocTree.Proofs.Arena.Copying
import DocTree.Proofs.Arena.Likeness
import DocTree.Proofs.Arena.Owners

/-! The shape of the copies that come under a new parent: numbered in pre-order, with the data of
their originals, and owned by one document. -/

namespace DocTree.Arena

/-- From the number `k` to before `l` stand copies of `xs` and of the nodes below, in pre-order; `cs`
are the copies of `xs`, which come under `p`. -/
inductive Mirrors (a b : Arena) (d : NodeId) :
    NodeId → NodeId → List NodeId → List NodeId → NodeId → Prop
  | nil : Mirrors a b d p k [] [] k
  | cons : a.find? x = some n → b.find? k = some ⟨k, some p, cs, some d, n.data⟩ →
      Mirrors a b d k (k + 1) n.children cs l → Mirrors a b d p l xs ds m →
      Mirrors a b d p k (x :: xs) (k :: ds) m

variable {a b b' : Arena} {x y p d l m : NodeId} {k n : Node} {xs cs zs : List NodeId}

theorem getElem?_cons_append_iff {i : Nat} :
    (x :: (xs ++ zs))[i]? = some y ↔
      (i = 0 ∧ x = y) ∨ (∃ j, i = j + 1 ∧ xs[j]? = some y) ∨
        ∃ j, i = xs.length + j + 1 ∧ zs[j]? = some y := by
  rcases i with _ | i
  · simp
  by_cases hi : i < xs.length
  · rw [List.getElem?_cons_succ, List.getElem?_append_left hi]
    constructor
    · exact fun hy => .inr (.inl ⟨i, rfl, hy⟩)
    · rintro (⟨⟨⟩, -⟩ | ⟨j, ⟨⟩, hy⟩ | ⟨j, hj, -⟩)
      · exact hy
      · omega
  · obtain ⟨j, rfl⟩ := Nat.exists_eq_add_of_le (Nat.le_of_not_lt hi)
    rw [List.getElem?_cons_succ, List.getElem?_append_right (Nat.le_add_right _ _),
      Nat.add_sub_cancel_left]
    simp

namespace Mirrors

theorem le (hm : Mirrors a b d p l xs cs m) : l ≤ m := by
  induction hm with
  | nil => exact Nat.le_refl _
  | cons _ _ _ _ ihc ihs => exact Nat.le_trans (Nat.le_of_succ_le ihc) ihs

theorem mono (hm : Mirrors a b d p l xs cs m)
    (hkeep : ∀ y n, l ≤ y → b.find? y = some n → b'.find? y = some n) :
    Mirrors a b' d p l xs cs m := by
  induction hm with
  | nil => exact .nil
  | @cons x n l cs _ _ _ _ _ hx hcopy hc _ ihc ihs =>
    have hlt := hc.le
    refine .cons hx (hkeep _ _ (Nat.le_refl l) hcopy) (ihc fun y j hy => ?_) (ihs fun y j hy => ?_)
    · exact hkeep y j (Nat.le_of_succ_le hy)
    · exact hkeep y j (Nat.le_trans (Nat.le_of_succ_le hlt) hy)

theorem alike_iff (hm : Mirrors a b d p l xs cs m) (hp : a.Preorder xs zs)
    (hkeep : ∀ {y n}, a.find? y = some n → b.find? y = some n) (hl : a.nextId ≤ l) :
    b.Alike xs cs ↔ ∀ z ∈ zs, ∀ n, a.find? z = some n → n.data.agrees n.data = true := by
  induction hm generalizing zs with
  | nil =>
    cases hp
    exact iff_of_true .nil (by simp)
  | @cons x n l cs _ _ _ _ _ hx hcopy hc _ ihc ihs =>
    cases hp with
    | cons hx' hys hws =>
      obtain rfl := Option.eq_some_unique hx hx'
      have hne : x ≠ l := Nat.ne_of_lt (Nat.lt_of_lt_of_le (find?_lt hx) hl)
      have hlt := hc.le
      rw [alike_cons_iff (hkeep hx) hcopy hne, ihc hys (Nat.le_succ_of_le hl),
        ihs hws (Nat.le_trans hl (Nat.le_of_succ_le hlt))]
      simp [hx, or_imp, forall_and]

theorem numbered (h : a.Forest) {num : NodeId → NodeId} (hm : Mirrors a b d p l xs cs m)
    (hp : a.Preorder xs zs) (hnum : ∀ i y, zs[i]? = some y → num y = l + i)
    (hparent : ∀ x ∈ xs, ∀ k, a.find? x = some k → k.parent.map num = some p) :
    m = l + zs.length ∧ cs = xs.map num ∧ ∀ i y k, zs[i]? = some y → a.find? y = some k →
      b.find? (l + i) = some ⟨l + i, k.parent.map num, k.children.map num, some d, k.data⟩ := by
  induction hm generalizing zs with
  | nil =>
    cases hp
    exact ⟨rfl, rfl, by simp⟩
  | @cons x n l p cs l' xs ds m hx hcopy _ _ ihc ihs =>
    cases hp with
    | @cons _ _ ys _ ws hx' hys hws =>
      obtain rfl := Option.eq_some_unique hx hx'
      have hself : num x = l := hnum 0 x rfl
      have hleft : ∀ i, l + 1 + i = l + (i + 1) := fun i => Nat.succ_add_eq_add_succ l i
      have hright : ∀ i, l + 1 + ys.length + i = l + (ys.length + i + 1) := fun i => by
        rw [Nat.add_assoc (l + 1), hleft]
      have hbelow : ∀ c ∈ n.children, ∀ k, a.find? c = some k → k.parent.map num = some l := by
        intro c hc k hk
        rw [h.parent_eq_of_mem hx hc hk, Option.map_some, hself]
      obtain ⟨rfl, rfl, hcopies⟩ := ihc hys
        (fun i y hy => hleft i ▸ hnum _ y (getElem?_cons_append_iff.2 (.inr (.inl ⟨i, rfl, hy⟩))))
        hbelow
      obtain ⟨rfl, rfl, hcopies'⟩ := ihs hws
        (fun i y hy => hright i ▸ hnum _ y (getElem?_cons_append_iff.2 (.inr (.inr ⟨i, rfl, hy⟩))))
        fun y hy => hparent y (List.mem_cons_of_mem x hy)
      refine ⟨?_, by rw [List.map_cons, hself], fun i y k hy hk => ?_⟩
      · rw [List.length_cons, List.length_append, hright]
      · rcases getElem?_cons_append_iff.1 hy with ⟨rfl, rfl⟩ | ⟨j, rfl, hj⟩ | ⟨j, rfl, hj⟩
        · obtain rfl := Option.eq_some_unique hx hk
          rw [Nat.add_zero, hcopy, hparent x (by simp) n hx]
        · rw [← hleft]
          exact hcopies j y k hj hk
        · rw [← hright]
          exact hcopies' j y k hj hk

end Mirrors

theorem Ready.mirrors (h : a.WellFormed) (hr : Ready a b p k xs) (hd : k.document = some d)
    (hc : Copies a b p xs b') :
    ∃ cs, b'.find? p = some { k with children := k.children ++ cs } ∧
      Mirrors a b' d p b.nextId xs cs b'.nextId := by
  induction hc generalizing k with
  | nil => exact ⟨[], by simpa using hr.parent, .nil⟩
  | @cons x n k' d' b₁ p xs b₂ b hx hp hd' hchildren hrest ihc ihs =>
    obtain rfl := Option.eq_some_unique hr.parent hp
    obtain rfl := Option.eq_some_unique hd hd'
    have hchild := hr.child h hx hd
    have hcopied := hchild.copied h hchildren
    have hnext := hr.next hx hcopied
    have howner : (⟨b.nextId, some p, [], some d, n.data⟩ : Node).document = some d :=
      Node.document_eq_owner (hr.admits hx).not_document
    obtain ⟨cs, hself, hcs⟩ := ihc hchild howner
    obtain ⟨ds, hparent, hds⟩ := ihs hnext hd
    have hkeep : ∀ y m, b.nextId ≤ y → b₁.find? y = some m → b₂.find? y = some m := by
      intro y m hy hym
      have hyp : p < y := Nat.lt_of_lt_of_le (find?_lt hr.parent) hy
      exact (hnext.copied h hrest).keeps hym (Nat.ne_of_gt hyp)
    rw [nextId_grow] at hcs
    refine ⟨b.nextId :: ds, by simpa using hparent, .cons hx ?_ (hcs.mono fun y m hy => ?_) hds⟩
    · exact hkeep _ _ (Nat.le_refl _) hself
    · exact hkeep y m (Nat.le_of_succ_le hy)

end DocTree.Arena
