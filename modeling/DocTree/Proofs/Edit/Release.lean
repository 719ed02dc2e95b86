import DocTree.Proofs.Failure.Answers

namespace DocTree

variable {a b : Arena} {x y : NodeId} {n : Node} {op : Operation} {ops : List Operation} {k : Nat}

namespace Arena

def Vacant (a : Arena) (y : NodeId) : Prop := y < a.nextId ∧ a.find? y = none

structure Gone (a : Arena) (y : NodeId) : Prop where
  dead : a.find? y = none
  unlisted : y ∉ a.ids
  unnamed : ∀ x n, a.find? x = some n → y ∉ n.numbers
  unread : ∀ (r : Inspection) ys, r.answer a = .ok ys → y ∉ ys
  unvisited : ∀ (σ : Type) (x : NodeId) (visit other : Node → EStateM Error σ Unit),
    (∀ n, y ∉ n.numbers → visit n = other n) → a.traverse x visit = a.traverse x other
  ungiven : ∀ (op : Operation) ys b, op.result.run a = .ok ys b → y ∉ ys

/-- In `b` the subtree of `x` is gone, which has `k` nodes, and the rest of `a` is left. -/
structure Freed (a : Arena) (x : NodeId) (k : Nat) (b : Arena) : Prop where
  count : ∃ ys : List NodeId, ys.Nodup ∧ (∀ y, y ∈ ys ↔ a.Within x y) ∧ ys.length = k
  freed : ∀ y, a.isLive y = true ∧ b.isLive y = false ↔ a.Within x y
  kept : ∀ y, ¬ a.Within x y → b.find? y = a.find? y
  size : b.size + k = a.size
  unnamed : ∀ y, a.Within x y → ∀ z m, b.find? z = some m → y ∉ m.numbers

theorem AllLive.notMem {ys : List NodeId} (hys : a.AllLive ys) (hy : a.find? y = none) : y ∉ ys := by
  intro hmem
  obtain ⟨n, hn⟩ := hys y hmem
  cases hy.symm.trans hn

theorem forM_visit_congr {σ : Type} {visit other : Node → EStateM Error σ Unit}
    {ys : List NodeId} (hvisit : ∀ y n, a.find? y = some n → visit n = other n)
    (hys : a.AllLive ys) :
    (ys.forM fun y => do visit (← a.get y) : EStateM Error σ Unit) =
      (ys.forM fun y => do other (← a.get y)) := by
  induction ys with
  | nil => rfl
  | cons y ys ih =>
    obtain ⟨⟨n, hn⟩, hys⟩ := List.forall_mem_cons.1 hys
    rw [List.forM, List.forM, get_eq_ok hn, liftM_ok, pure_bind, pure_bind,
      hvisit y n hn, ih hys]

theorem Forest.traverse_congr (h : a.Forest) {σ : Type} (x : NodeId)
    {visit other : Node → EStateM Error σ Unit}
    (hvisit : ∀ y n, a.find? y = some n → visit n = other n) :
    a.traverse x visit = a.traverse x other := by
  have hknown : a.Known [x] x := .inl (.head _)
  have hlive := Yields.preorder h hknown
  rw [traverse, traverse]
  cases hpre : a.preorder x with
  | error e => rfl
  | ok ys =>
    rw [hpre] at hlive
    rw [liftM_ok, pure_bind, pure_bind, forM_visit_congr hvisit hlive]

theorem WellFormed.gone (h : a.WellFormed) (hy : a.Vacant y) : a.Gone y where
  dead := hy.2
  unlisted hmem := by
    obtain ⟨n, hn, rfl⟩ := List.mem_map.1 hmem
    cases hy.2.symm.trans (h.find?_id_of_mem_nodes hn)
  unnamed x n hx := (h.allLive_numbers hx).notMem hy.2
  unread r ys hr := (r.allLive_answer h hr).notMem hy.2
  unvisited σ x visit other hvisit :=
    h.traverse_congr x fun z n hz => hvisit n ((h.allLive_numbers hz).notMem hy.2)
  ungiven op ys b hrun hmem := by
    rcases op.names_result h hrun y hmem with ⟨n, hn⟩ | hnext
    · cases hy.2.symm.trans hn
    · exact Nat.ne_of_lt hy.1 hnext

theorem Vacant.mapNodes (hy : a.Vacant y) (f : NodeId → Node → Node) : (a.mapNodes f).Vacant y := by
  rw [Vacant, nextId_mapNodes, find?_mapNodes, hy.2]
  exact ⟨hy.1, rfl⟩

theorem Vacant.change (hy : a.Vacant y) (hab : a.Change b) : b.Vacant y := by
  obtain ⟨hlt, hdead⟩ := id hy
  cases hab with
  | @push owner data =>
    refine ⟨by rw [nextId_push]; exact Nat.lt_succ_of_lt hlt, ?_⟩
    rw [find?_push, if_neg (Nat.ne_of_lt hlt), hdead]
  | setData => exact update_eq_mapNodes .. ▸ hy.mapNodes _
  | own => exact hy.mapNodes _
  | drop => exact ⟨by rwa [nextId_drop], by rw [find?_drop, hdead, ite_self]⟩
  | unlinkAll xs => exact hy.mapNodes _
  | link ref => exact hy.mapNodes _

end Arena

namespace Operation

theorem vacant_step (h : a.WellFormed) (hy : a.Vacant y) (op : Operation) :
    (step a op).Vacant y := by
  by_cases hroot : op.AdoptsRoot a
  · exact h.keeps (P := (·.Vacant y)) (fun _ hy hab => hy.change hab) (changes_step h hroot) hy
  · cases op with
    | adopt d x =>
      -- The adoption of a node under a parent is no change, but it frees nothing either.
      have hperform : (adopt d x).perform = (fun _ => ()) <$> Edit.adopt d x := rfl
      rw [step, hperform, run_map]
      obtain ⟨e, hrun⟩ | ⟨n, m, -, -, -, -, hrun⟩ := Edit.run_adopt_cases h.toForest d x
      · rwa [hrun]
      · rw [hrun]
        exact hy.mapNodes _
    | _ => exact absurd trivial hroot

theorem vacant_run (h : a.WellFormed) (hy : a.Vacant y) (ops : List Operation) :
    (run ops a).Vacant y := by
  induction ops generalizing a with
  | nil => exact hy
  | cons op ops ih => exact ih (wellFormed_step h op) (vacant_step h hy op)

end Operation

namespace Edit

theorem releasable_iff (h : a.WellFormed) (hx : a.find? x = some n) :
    Releasable a x n ↔ n.parent = none ∧ (n.isDocument = true →
      ∀ y m, a.find? y = some m → m.ownerDocument = some x → a.Within x y) := by
  have howner : ∀ {y m}, a.find? y = some m → m.ownerDocument = m.owner := by
    intro y m hy
    cases hm : m.isDocument with
    | true => rw [h.document_owner hy hm, Node.ownerDocument, if_pos hm]
    | false => exact Node.ownerDocument_eq_owner hm
  refine and_congr_right fun _ => forall_congr' fun _ => forall₃_congr fun y m hy => ?_
  rw [howner hy, h.mem_subtree_iff hx]

theorem release_eq_ok (h : a.Forest) (hrun : (release x).run a = .ok k b) :
    ∃ n, a.find? x = some n ∧ Releasable a x n ∧ (a.subtree x).length = k ∧
      a.drop (a.subtree x) = b := by
  cases hx : a.find? x with
  | none => simp [release, Arena.get_eq_error hx] at hrun
  | some n =>
    by_cases hn : Releasable a x n
    · cases (run_release h hx hn).symm.trans hrun
      exact ⟨n, rfl, hn, rfl, rfl⟩
    · obtain ⟨e, he, -⟩ := run_release_refused h hx hn
      cases he.symm.trans hrun

end Edit

namespace Arena

theorem WellFormed.freed (h : a.WellFormed) (hx : a.find? x = some n)
    (hn : Edit.Releasable a x n) :
    a.Freed x (a.subtree x).length (a.drop (a.subtree x)) := by
  have hb := h.drop hx hn.1 hn.2
  have hmem : ∀ y, y ∈ a.subtree x ↔ a.Within x y := fun y => h.mem_subtree_iff hx
  have hdead : ∀ y, a.Within x y → (a.drop (a.subtree x)).find? y = none := fun y hy => by
    rw [find?_drop, if_pos ((hmem y).2 hy)]
  have hkept : ∀ y, ¬ a.Within x y → (a.drop (a.subtree x)).find? y = a.find? y := fun y hy => by
    rw [find?_drop, if_neg (mt (hmem y).1 hy)]
  refine ⟨⟨_, h.nodup_subtree hx, hmem, rfl⟩, fun y => ⟨?_, ?_⟩, hkept, ?_, ?_⟩
  · rintro ⟨hlive, hgone⟩
    by_contra hy
    rw [isLive, hkept y hy, ← isLive, hlive] at hgone
    cases hgone
  · intro hy
    exact ⟨Option.isSome_iff_exists.2 (hy.live hx), by rw [isLive, hdead y hy]; rfl⟩
  · have hlive : ∀ y ∈ a.subtree x, a.isLive y = true := fun y hy =>
      Option.isSome_iff_exists.2 (((hmem y).1 hy).live hx)
    rw [size, size, hb.live_eq, h.live_eq, length_nodes_drop (h.nodup_subtree hx) hlive]
  · exact fun y hy z m hz => (hb.allLive_numbers hz).notMem (hdead y hy)

/-- Release goes through for a node at the top that is not the owner of nodes elsewhere.  It frees
the subtree, and none of its numbers comes up again. -/
theorem Reachable.release_for_good (ha : a.Reachable) (x : NodeId) :
    ((∃ k b, (Edit.release x).run a = .ok k b) ↔
      ∃ n, a.find? x = some n ∧ n.parent = none ∧ (n.isDocument = true →
        ∀ y m, a.find? y = some m → m.ownerDocument = some x → a.Within x y)) ∧
    ∀ k b, (Edit.release x).run a = .ok k b → a.Freed x k b ∧
      ∀ ops, (Operation.run ops b).nextId ≤ 2 ^ 32 →
        ∀ y, a.Within x y → (Operation.run ops b).Gone y := by
  have h := ha.wellFormed
  refine ⟨⟨?_, ?_⟩, ?_⟩
  · rintro ⟨k, b, hrun⟩
    obtain ⟨n, hx, hn, -⟩ := Edit.release_eq_ok h.toForest hrun
    exact ⟨n, hx, (Edit.releasable_iff h hx).1 hn⟩
  · rintro ⟨n, hx, hn⟩
    exact ⟨_, _, Edit.run_release h.toForest hx ((Edit.releasable_iff h hx).2 hn)⟩
  · intro k b hrun
    obtain ⟨n, hx, hn, rfl, rfl⟩ := Edit.release_eq_ok h.toForest hrun
    have hfreed := h.freed hx hn
    refine ⟨hfreed, fun ops _ y hy => ?_⟩
    have hb := h.drop hx hn.1 hn.2
    have hvacant : (a.drop (a.subtree x)).Vacant y := by
      obtain ⟨m, hm⟩ := hy.live hx
      refine ⟨by rw [nextId_drop]; exact find?_lt hm, ?_⟩
      rw [find?_drop, if_pos ((h.mem_subtree_iff hx).2 hy)]
    exact (Operation.wellFormed_run hb ops).gone (Operation.vacant_run hb hvacant ops)

theorem release_for_good_element : ∃ a b c : Arena, a.Reachable ∧
    (Edit.release 1).run a = .ok 3 b ∧ a.Freed 1 3 b ∧ a.Within 1 2 ∧
    c = Operation.run [.createElement 0 "d", .append 0 [2], .appendChild 0 4, .clone 4 true] b ∧
    c.ids = [0, 4, 5] ∧ c.Gone 2 := by
  have h : (Operation.run [.createDocument, .createElement 0 "a", .createElement 0 "b",
      .createComment 0 "c", .append 1 [2, 3]] .empty).Reachable := ⟨⟨_, rfl⟩, by decide⟩
  have hwithin := (h.wellFormed.mem_subtree_iff (x := 1) (y := 2) rfl).1 (by decide)
  obtain ⟨hfreed, hgone⟩ := (h.release_for_good 1).2 3 _ rfl
  exact ⟨_, _, _, h, rfl, hfreed, hwithin, rfl, by decide, hgone _ (by decide) 2 hwithin⟩

end Arena

end DocTree
