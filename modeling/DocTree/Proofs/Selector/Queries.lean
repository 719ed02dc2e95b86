import DocTree.Proofs.Selector.Selection

namespace DocTree

open Matcher

variable {a : Arena} {t : Truth} {r x : NodeId} {n : Node} {ys : List NodeId}

namespace Matcher

variable {p : NodeId → Matcher Bool} {P : NodeId → Prop} [DecidablePred P] {xs : List NodeId}
  {memo : Memo}

theorem run_filterBelow (hpre : a.Preorder xs ys) {fuel : Nat} (hf : ys.length ≤ fuel)
    (hp : ∀ y ∈ ys, Answers t (p y) (P y)) (hmemo : memo.Sound t) :
    ∃ memo', (filterBelow a p fuel xs).run memo = .ok (ys.filter (P ·)) memo' ∧ memo'.Sound t := by
  induction fuel generalizing xs ys memo with
  | zero =>
    cases hpre with
    | nil => exact ⟨memo, rfl, hmemo⟩
    | cons => simp at hf
  | succ fuel ih =>
    cases hpre with
    | nil => exact ⟨memo, rfl, hmemo⟩
    | @cons x n _ rest _ hx hc hs =>
      obtain ⟨hpx, hrest⟩ := List.forall_mem_cons.1 hp
      obtain ⟨b, memo₁, hrun, hsound, hb⟩ := hpx memo hmemo
      obtain ⟨memo₂, hrun₂, hsound₂⟩ := ih (hc.append hs) (Nat.le_of_succ_le_succ hf) hrest hsound
      have hkept : ∀ zs : List NodeId,
          (if b = true then [x] else []) ++ zs.filter (P ·) = (x :: zs).filter (P ·) := by
        intro zs
        by_cases hP : P x <;> simp [hb, hP]
      refine ⟨memo₂, ?_, hsound₂⟩
      rw [← hkept]
      exact Worklist.run_cons_run (by simp [hrun, Arena.get_eq_ok hx]) hrun₂

theorem run_findBelow? (hpre : a.Preorder xs ys) {fuel : Nat} (hf : ys.length ≤ fuel)
    (hp : ∀ y ∈ ys, Answers t (p y) (P y)) (hmemo : memo.Sound t) :
    ∃ memo', (findBelow? a p fuel xs).run memo = .ok (ys.find? (P ·)) memo' := by
  induction fuel generalizing xs ys memo with
  | zero =>
    cases hpre with
    | nil => exact ⟨memo, rfl⟩
    | cons => simp at hf
  | succ fuel ih =>
    cases hpre with
    | nil => exact ⟨memo, rfl⟩
    | @cons x n _ rest _ hx hc hs =>
      obtain ⟨hpx, hrest⟩ := List.forall_mem_cons.1 hp
      obtain ⟨b, memo₁, hrun, hsound, hb⟩ := hpx memo hmemo
      by_cases hP : P x
      · obtain rfl := hb.2 hP
        exact ⟨memo₁, by simp [findBelow?, hrun, hP]⟩
      · obtain rfl : b = false := by simpa [hP] using hb
        obtain ⟨memo₂, hrun₂⟩ := ih (hc.append hs) (Nat.le_of_succ_le_succ hf) hrest hsound
        exact ⟨memo₂, by simp [findBelow?, hrun, Arena.get_eq_ok hx, hrun₂, hP]⟩

end Matcher

namespace Arena

namespace WellFormed

variable (h : a.WellFormed) (l : SelectorList)
include h

theorem answers_subtree (hr : a.find? r = some n) :
    ∀ y ∈ a.subtree r, Answers (l.truth a) (l.selects a y) (l.Selected a y) := by
  intro y hy
  obtain ⟨m, hm⟩ := h.live_of_mem_subtree hr y hy
  exact l.answers h hm

theorem queryAll_eq [DecidablePred (l.Selected a)] (hr : a.find? r = some n) :
    a.queryAll r l = .ok ((a.subtree r).filter (l.Selected a ·)) := by
  obtain ⟨memo, hrun, -⟩ := run_filterBelow (h.preorder_spec hr).2
    (Nat.le_succ_of_le (h.length_subtree_le hr)) (h.answers_subtree l hr) (Memo.sound_empty _)
  simp [queryAll, fresh, hrun]

theorem query_eq [DecidablePred (l.Selected a)] (hr : a.find? r = some n) :
    a.query r l = .ok ((a.subtree r).find? (l.Selected a ·)) := by
  obtain ⟨memo, hrun⟩ := run_findBelow? (h.preorder_spec hr).2
    (Nat.le_succ_of_le (h.length_subtree_le hr)) (h.answers_subtree l hr) (Memo.sound_empty _)
  simp [query, fresh, hrun]

end WellFormed

end Arena

theorem Arena.WellFormed.queryAll_eq_singleton (h : a.WellFormed) (l : SelectorList)
    (hr : a.find? r = some n) (hx : a.Within r x)
    (hl : ∀ y, a.Within r y → (l.Selected a y ↔ y = x)) : a.queryAll r l = .ok [x] := by
  classical
  have hfilter : (a.subtree r).filter (l.Selected a ·) = (a.subtree r).filter (· == x) := by
    refine List.filter_congr fun y hy => ?_
    rw [decide_eq_decide.2 (hl y ((h.mem_subtree_iff hr).1 hy)), beq_eq_decide]
  have hcount : (a.subtree r).count x = 1 := by
    rw [(h.nodup_subtree hr).count, if_pos ((h.mem_subtree_iff hr).2 hx)]
  rw [h.queryAll_eq l hr, hfilter, List.filter_beq, hcount]
  rfl

namespace Arena

/-- A query gives the selected nodes among the start and its descendants, in document order, each
once, and the query for one node the first of them; a node counts by the answer it gets alone. -/
theorem Reachable.queries_eq_filter (ha : a.Reachable) (hr : a.find? r = some n) (l : SelectorList) :
    ∃ ys found, a.descendants r = .ok ys ∧ (∀ y ∈ r :: ys, ∃ b, a.isSelected y l = .ok b) ∧
      found = (r :: ys).filter (fun y => a.isSelected y l = .ok true) ∧ found.Nodup ∧
      a.queryAll r l = .ok found ∧ a.query r l = .ok found.head? := by
  classical
  have h := ha.wellFormed
  obtain ⟨ys, hys, hsub⟩ := h.descendants_eq hr
  have hdecides : ∀ y ∈ r :: ys, Decides (a.isSelected y l) (l.Selected a y) := by
    intro y hy
    rw [← hsub] at hy
    obtain ⟨m, hm⟩ := ((h.mem_subtree_iff hr).1 hy).live hr
    exact h.decides_isSelected l hm
  have hanswer : ∀ y ∈ r :: ys,
      decide (a.isSelected y l = .ok true) = decide (l.Selected a y) := by
    intro y hy
    obtain ⟨b, hb, hiff⟩ := hdecides y hy
    rw [decide_eq_decide, hb, Except.ok.injEq, hiff]
  refine ⟨ys, _, hys, fun y hy => (hdecides y hy).imp fun b hb => hb.1, rfl, ?_, ?_, ?_⟩
  · exact (hsub ▸ h.nodup_subtree hr).filter _
  · rw [h.queryAll_eq l hr, hsub, List.filter_congr hanswer]
  · rw [h.query_eq l hr, hsub, List.filter_congr hanswer, List.head?_filter]

theorem queries_eq_filter_group : ∃ a : Arena, a.Reachable ∧ (∃ n, a.find? 1 = some n) ∧
    a.descendants 1 = .ok [2, 3, 4] ∧
    (∀ y ∈ [1, 2, 3, 4], ∃ b, a.isSelected y (.parse "b ~ b, a, c:empty") = .ok b) ∧
    [1, 3, 4] =
      [1, 2, 3, 4].filter (fun y => a.isSelected y (.parse "b ~ b, a, c:empty") = .ok true) ∧
    a.queryAll 1 (.parse "b ~ b, a, c:empty") = .ok [1, 3, 4] ∧
    a.query 1 (.parse "b ~ b, a, c:empty") = .ok (some 1) := by
  have h : (Operation.run [.createDocument, .createElement 0 "a", .createElement 0 "b",
      .createElement 0 "b", .createElement 0 "c", .append 1 [2, 3], .appendChild 3 4]
      .empty).Reachable := ⟨⟨_, rfl⟩, by decide⟩
  obtain ⟨ys, found, hys, hall, hfound, -, hquery, hfirst⟩ :=
    h.queries_eq_filter (r := 1) rfl (.parse "b ~ b, a, c:empty")
  obtain rfl : ys = [2, 3, 4] := Except.ok.inj (hys.symm.trans (by decide +kernel))
  obtain rfl : found = [1, 3, 4] := Except.ok.inj (hquery.symm.trans (by decide +kernel))
  exact ⟨_, h, ⟨_, rfl⟩, hys, hall, hfound, hquery, hfirst⟩

end Arena

end DocTree
