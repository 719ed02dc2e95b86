import DocTree.Proofs.Arena.Moving

namespace DocTree.Arena

def grow (b : Arena) (p d : NodeId) (n : Node) : Arena :=
  (b.push n.owner n.data).moved p b.nextId d none

/-- Copies of the nodes `xs` of `a` come under `p`, each with copies of its children. -/
inductive Copies (a : Arena) : Arena → NodeId → List NodeId → Arena → Prop
  | nil : Copies a b p [] b
  | cons : a.find? x = some n → b.find? p = some k → k.document = some d →
      Copies a (b.grow p d n) b.nextId n.children b₁ → Copies a b₁ p xs b₂ →
      Copies a b p (x :: xs) b₂

variable {a b b' : Arena} {x y p d : NodeId} {k m n : Node} {xs ys cs : List NodeId}

theorem push_lineage {ps : List NodeId} (h : b.Lineage y ps) (owner : Option NodeId)
    (data : NodeData) : (b.push owner data).Lineage y ps :=
  h.congr fun _ _ n hz => ⟨n, find?_push_of_live hz, rfl⟩

theorem Forest.not_within_push (h : b.Forest) (hp : b.find? p = some k) (owner : Option NodeId)
    (data : NodeData) : ¬ (b.push owner data).Within b.nextId p := by
  obtain ⟨ps, hps⟩ := h.lineage hp
  rw [(push_lineage hps owner data).within_iff, List.mem_cons]
  rintro (heq | hmem)
  · exact absurd (find?_lt hp) (by rw [heq]; exact Nat.lt_irrefl _)
  · obtain ⟨j, hj⟩ := hps.live_of_mem hmem
    exact Nat.lt_irrefl _ (find?_lt hj)

theorem Forest.subtree_push (h : b.Forest) (owner : Option NodeId) (data : NodeData) :
    (b.push owner data).subtree b.nextId = [b.nextId] := by
  have hself := find?_push_self b owner data
  exact ((h.push owner data).preorder_spec hself).2.unique (.cons hself .nil .nil)

theorem Forest.children_lt (h : b.Forest) (hy : b.find? y = some n) :
    ∀ c ∈ n.children, c < b.nextId := by
  intro c hc
  obtain ⟨m, hm⟩ := h.child_live hy c hc
  exact find?_lt hm

theorem Forest.find?_grow (h : b.Forest) (hp : b.find? p = some k) (d : NodeId) (n : Node)
    (y : NodeId) :
    (b.grow p d n).find? y =
      if y = b.nextId then some ⟨b.nextId, some p, [], some d, n.data⟩
      else (b.find? y).map fun j =>
        if y = p then { j with children := j.children ++ [b.nextId] } else j := by
  have hne : b.nextId ≠ p := Nat.ne_of_gt (find?_lt hp)
  rw [grow, find?_moved, h.subtree_push, find?_push]
  by_cases hy : y = b.nextId
  · simp [hy, Node.detached, hne]
  · rw [if_neg hy, if_neg hy]
    apply Option.map_congr
    intro j hj
    have hchildren : j.children.filter (· != b.nextId) = j.children :=
      List.filter_eq_self.2 fun c hc => bne_iff_ne.2 (Nat.ne_of_lt (h.children_lt hj c hc))
    rw [hchildren, Edit.insertInto_none, if_neg hy]
    by_cases hyp : y = p
    · subst hyp
      simp [hy]
    · simp [hy, hyp]

theorem Forest.find?_grow_self (h : b.Forest) (hp : b.find? p = some k) (d : NodeId) (n : Node) :
    (b.grow p d n).find? b.nextId = some ⟨b.nextId, some p, [], some d, n.data⟩ := by
  rw [h.find?_grow hp, if_pos rfl]

theorem Forest.find?_grow_parent (h : b.Forest) (hp : b.find? p = some k) (d : NodeId) (n : Node) :
    (b.grow p d n).find? p = some { k with children := k.children ++ [b.nextId] } := by
  rw [h.find?_grow hp, if_neg (Nat.ne_of_lt (find?_lt hp)), hp]
  simp

theorem Forest.find?_grow_of_ne (h : b.Forest) (hp : b.find? p = some k) (d : NodeId) (n : Node)
    (hy : b.find? y = some m) (hyp : y ≠ p) : (b.grow p d n).find? y = some m := by
  rw [h.find?_grow hp, if_neg (Nat.ne_of_lt (find?_lt hy)), hy]
  simp [hyp]

@[simp] theorem nextId_grow (b : Arena) (p d : NodeId) (n : Node) :
    (b.grow p d n).nextId = b.nextId + 1 := by
  simp [grow]

/-- Copies of `xs` may come under `p`, which is newer than the nodes of `a`; these are still there. -/
structure Ready (a b : Arena) (p : NodeId) (k : Node) (xs : List NodeId) : Prop where
  wellFormed : b.WellFormed
  keeps : ∀ {y n}, a.find? y = some n → b.find? y = some n
  newer : a.nextId ≤ p
  parent : b.find? p = some k
  sources : ∀ x ∈ xs, ∃ n, a.find? x = some n ∧ n.isDocument = false
  not_comment : xs ≠ [] → k.isComment = false
  single : k.isDocument = true →
    (xs.filter a.isElementAt).length + (k.children.filter b.isElementAt).length ≤ 1

theorem Ready.ne_parent (hr : Ready a b p k xs) (hy : a.find? y = some m) : y ≠ p :=
  Nat.ne_of_lt (Nat.lt_of_lt_of_le (find?_lt hy) hr.newer)

theorem Ready.admits (hr : Ready a b p k (x :: xs)) (hx : a.find? x = some n) :
    (b.push n.owner n.data).Admits p b.nextId k (.detached b.nextId n.owner n.data) where
  parent := find?_push_of_live hr.parent
  not_comment := hr.not_comment (by simp)
  node := find?_push_self ..
  not_document := by
    obtain ⟨n', hn', hdoc⟩ := hr.sources x (by simp)
    obtain rfl := Option.eq_some_unique hx hn'
    exact hdoc
  not_within := hr.wellFormed.not_within_push hr.parent n.owner n.data

theorem Ready.spare (hr : Ready a b p k (x :: xs)) (hx : a.find? x = some n) :
    (b.push n.owner n.data).Spare k (.detached b.nextId n.owner n.data) := by
  intro hdoc hel c hc
  obtain ⟨j, hj⟩ := hr.wellFormed.child_live hr.parent c hc
  rw [isElementAt_push_of_live hj]
  have hsingle := hr.single hdoc
  have hxe : a.isElementAt x = true := (isElementAt_eq hx).trans hel
  rw [List.filter_cons_of_pos hxe, List.length_cons] at hsingle
  have hnone : k.children.filter b.isElementAt = [] := by
    apply List.eq_nil_of_length_eq_zero
    omega
  simpa using List.filter_eq_nil_iff.1 hnone c hc

theorem Ready.changes_grow (h : a.WellFormed) (hr : Ready a b p k (x :: xs))
    (hx : a.find? x = some n) (hd : k.document = some d) : b.Changes (b.grow p d n) := by
  have hown := (h.mayOwn hx).mono hr.keeps
  exact .head (.push hown)
    ((hr.wellFormed.push hown).changes_moved (hr.admits hx) (hr.spare hx) hd none)

theorem Ready.wellFormed_grow (h : a.WellFormed) (hr : Ready a b p k (x :: xs))
    (hx : a.find? x = some n) (hd : k.document = some d) : (b.grow p d n).WellFormed :=
  hr.wellFormed.of_changes (hr.changes_grow h hx hd)

theorem Ready.child (h : a.WellFormed) (hr : Ready a b p k (x :: xs)) (hx : a.find? x = some n)
    (hd : k.document = some d) :
    Ready a (b.grow p d n) b.nextId ⟨b.nextId, some p, [], some d, n.data⟩ n.children where
  wellFormed := hr.wellFormed_grow h hx hd
  keeps hy := by
    have hyp := Nat.ne_of_lt (Nat.lt_of_lt_of_le (find?_lt hy) hr.newer)
    exact hr.wellFormed.find?_grow_of_ne hr.parent d n (hr.keeps hy) hyp
  newer := Nat.le_trans hr.newer (Nat.le_of_lt (find?_lt hr.parent))
  parent := hr.wellFormed.find?_grow_self hr.parent d n
  sources := h.child_not_document hx
  not_comment hc := by
    cases hcom : n.isComment with
    | false => exact hcom
    | true => exact absurd (h.comment_children hx hcom) hc
  single hdoc := absurd ((hr.admits hx).not_document.symm.trans hdoc) Bool.false_ne_true

theorem WellFormed.ready (h : a.WellFormed) (hx : a.find? x = some n) :
    Ready a (a.push n.owner n.data) a.nextId (.detached a.nextId n.owner n.data) n.children where
  wellFormed := h.push (h.mayOwn hx)
  keeps := find?_push_of_live
  newer := Nat.le_refl _
  parent := find?_push_self ..
  sources := h.child_not_document hx
  not_comment hc := by
    cases hcom : n.isComment with
    | false => exact hcom
    | true => exact absurd (h.comment_children hx hcom) hc
  single hdoc := h.length_elements_le hx hdoc

structure Copied (a b : Arena) (p : NodeId) (k : Node) (xs : List NodeId) (b' : Arena) : Prop where
  wellFormed : b'.WellFormed
  nextId_le : b.nextId ≤ b'.nextId
  keeps : ∀ {y n}, b.find? y = some n → y ≠ p → b'.find? y = some n
  parent : ∃ cs, b'.find? p = some { k with children := k.children ++ cs } ∧
    (cs.filter b'.isElementAt).length = (xs.filter a.isElementAt).length

theorem Copied.isElementAt (hc : Copied a b p k xs b') (hp : b.find? p = some k)
    (hy : b.find? y = some n) : b'.isElementAt y = b.isElementAt y := by
  by_cases hyp : y = p
  · subst hyp
    obtain ⟨cs, hcs, -⟩ := hc.parent
    rw [isElementAt_eq hcs, isElementAt_eq hp]
    rfl
  · rw [isElementAt_eq (hc.keeps hy hyp), isElementAt_eq hy]

section Next

variable (h : a.WellFormed) (hr : Ready a b p k (x :: xs)) (hx : a.find? x = some n)
  (hd : k.document = some d)
  (hc : Copied a (b.grow p d n) b.nextId ⟨b.nextId, some p, [], some d, n.data⟩ n.children b')
include hr hc

theorem Ready.keeps_next (hy : b.find? y = some m) (hyp : y ≠ p) : b'.find? y = some m :=
  hc.keeps (hr.wellFormed.find?_grow_of_ne hr.parent d n hy hyp) (Nat.ne_of_lt (find?_lt hy))

theorem Ready.parent_next :
    b'.find? p = some { k with children := k.children ++ [b.nextId] } :=
  hc.keeps (hr.wellFormed.find?_grow_parent hr.parent d n) (Nat.ne_of_lt (find?_lt hr.parent))

theorem Ready.filter_children_next :
    k.children.filter b'.isElementAt = k.children.filter b.isElementAt := by
  refine List.filter_congr fun c hcmem => ?_
  obtain ⟨j, hj⟩ := hr.wellFormed.child_live hr.parent c hcmem
  have hcp := hr.wellFormed.ne_of_hasParent (hr.wellFormed.hasParent_of_mem hr.parent hcmem)
  rw [isElementAt_eq (hr.keeps_next hc hj hcp), isElementAt_eq hj]

include hx

theorem Ready.isElementAt_copy : b'.isElementAt b.nextId = a.isElementAt x := by
  have hself := hr.wellFormed.find?_grow_self hr.parent d n
  rw [hc.isElementAt hself hself, isElementAt_eq hself, isElementAt_eq hx]
  rfl

theorem Ready.next : Ready a b' p { k with children := k.children ++ [b.nextId] } xs where
  wellFormed := hc.wellFormed
  keeps hy := hr.keeps_next hc (hr.keeps hy) (hr.ne_parent hy)
  newer := hr.newer
  parent := hr.parent_next hc
  sources y hy := hr.sources y (List.mem_cons_of_mem _ hy)
  not_comment _ := hr.not_comment (by simp)
  single hdoc := by
    have hsingle := hr.single hdoc
    have hcopy := hr.isElementAt_copy hx hc
    simp only [List.filter_append, List.length_append, hr.filter_children_next hc]
    rw [List.filter_cons, ← hcopy] at hsingle
    rw [List.filter_singleton]
    cases hel : b'.isElementAt b.nextId with
    | false => simpa [hel] using hsingle
    | true =>
      simp only [hel, if_true, cond_true, List.length_cons, List.length_nil] at hsingle ⊢
      omega

end Next

theorem Ready.copied (h : a.WellFormed) (hr : Ready a b p k xs) (hc : Copies a b p xs b') :
    Copied a b p k xs b' := by
  induction hc generalizing k with
  | nil =>
    exact ⟨hr.wellFormed, Nat.le_refl _, fun hy _ => hy, [], by simpa using hr.parent, rfl⟩
  | @cons x n k' d _ p xs b₂ b hx hp hd _ _ ihc ihs =>
    obtain rfl := Option.eq_some_unique hr.parent hp
    -- First the copies below the new copy, then the copies of the later nodes.
    have hchild := ihc (hr.child h hx hd)
    have hself := hr.wellFormed.find?_grow_self hr.parent d n
    have hrest := ihs (hr.next hx hchild)
    obtain ⟨cs, hcs, hlen⟩ := hrest.parent
    refine ⟨hrest.wellFormed, ?_, ?_, b.nextId :: cs, by simpa using hcs, ?_⟩
    · have hle := hchild.nextId_le
      rw [nextId_grow] at hle
      exact Nat.le_trans (Nat.le_of_succ_le hle) hrest.nextId_le
    · intro y m hy hyp
      exact hrest.keeps (hr.keeps_next hchild hy hyp) hyp
    · obtain ⟨ds, hds, -⟩ := hchild.parent
      have hcopy : b₂.isElementAt b.nextId = a.isElementAt x := by
        rw [hrest.isElementAt (hr.parent_next hchild) hds, hr.isElementAt_copy hx hchild]
      rw [List.filter_cons, List.filter_cons, hcopy]
      split <;> simp [hlen]

theorem Ready.changes (h : a.WellFormed) (hr : Ready a b p k xs) (hc : Copies a b p xs b') :
    b.Changes b' := by
  induction hc generalizing k with
  | nil => exact .refl
  | cons hx hp hd hchildren _ ihc ihs =>
    obtain rfl := Option.eq_some_unique hr.parent hp
    have hchild := hr.child h hx hd
    exact ((hr.changes_grow h hx hd).trans (ihc hchild)).trans
      (ihs (hr.next hx (hchild.copied h hchildren)))

theorem Copies.frame (hc : Copies a b p xs b') :
    ∃ i, b'.nextId = b.nextId + i ∧ b'.live = b.live + i ∧
      ∀ y < b.nextId, b.find? y = none → b'.find? y = none := by
  induction hc with
  | nil => exact ⟨0, rfl, rfl, fun _ _ hy => hy⟩
  | @cons x n k d b₁ p xs b₂ b hx hp hd _ _ ihc ihs =>
    obtain ⟨i, hnext, hlive, hfree⟩ := ihc
    obtain ⟨j, hnext', hlive', hfree'⟩ := ihs
    rw [nextId_grow] at hnext hfree
    have hgrow : (b.grow p d n).live = b.live + 1 := rfl
    refine ⟨1 + i + j, ?_, ?_, fun y hlt hy => ?_⟩
    · rw [hnext', hnext, Nat.add_assoc, Nat.add_assoc, Nat.add_assoc]
    · rw [hlive', hlive, hgrow, Nat.add_assoc, Nat.add_assoc, Nat.add_assoc]
    · have hlt' : y < b.nextId + 1 := Nat.lt_succ_of_lt hlt
      refine hfree' y (hnext ▸ Nat.lt_add_right i hlt') (hfree y hlt' ?_)
      rw [grow, find?_moved, find?_push, if_neg (Nat.ne_of_lt hlt), hy, Option.map_none]

end DocTree.Arena
