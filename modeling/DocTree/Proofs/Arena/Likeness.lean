import DocTree.Proofs.Arena.Subtree

namespace DocTree.Arena

inductive Alike (a : Arena) : List NodeId → List NodeId → Prop
  | nil : Alike a [] []
  | same : Alike a xs ys → Alike a (x :: xs) (x :: ys)
  | cons : a.find? x = some n → a.find? y = some m → n.data.agrees m.data = true →
      Alike a n.children m.children → Alike a xs ys → Alike a (x :: xs) (y :: ys)

variable {a : Arena} {x y : NodeId} {n m : Node} {xs ys zs ws : List NodeId}

namespace Alike

theorem length_eq (h : a.Alike xs ys) : xs.length = ys.length := by
  induction h with
  | nil => rfl
  | same _ ih => rw [List.length_cons, ih, List.length_cons]
  | cons _ _ _ _ _ _ ih => rw [List.length_cons, ih, List.length_cons]

theorem append (h : a.Alike xs ys) (hz : a.Alike zs ws) : a.Alike (xs ++ zs) (ys ++ ws) := by
  induction h with
  | nil => exact hz
  | same _ ih => exact .same ih
  | cons hx hy hdata hchildren _ _ ih => exact .cons hx hy hdata hchildren ih

theorem of_append (h : a.Alike (xs ++ zs) (ys ++ ws)) (hlen : xs.length = ys.length) :
    a.Alike xs ys ∧ a.Alike zs ws := by
  induction xs generalizing ys with
  | nil =>
    obtain rfl := List.eq_nil_of_length_eq_zero hlen.symm
    exact ⟨.nil, h⟩
  | cons x xs ih =>
    cases ys with
    | nil => simp at hlen
    | cons y ys =>
      have hrest : xs.length = ys.length := Nat.succ.inj hlen
      cases h with
      | same h => exact (ih h hrest).imp_left .same
      | cons hx hy hdata hchildren h => exact (ih h hrest).imp_left (.cons hx hy hdata hchildren)

end Alike

theorem alike_append_iff (hlen : xs.length = ys.length) :
    a.Alike (xs ++ zs) (ys ++ ws) ↔ a.Alike xs ys ∧ a.Alike zs ws :=
  ⟨fun h => h.of_append hlen, fun h => h.1.append h.2⟩

@[simp] theorem alike_cons_self : a.Alike (x :: xs) (x :: ys) ↔ a.Alike xs ys := by
  refine ⟨fun h => ?_, .same⟩
  cases h with
  | same h => exact h
  | cons _ _ _ _ h => exact h

theorem alike_cons_iff (hx : a.find? x = some n) (hy : a.find? y = some m) (hne : x ≠ y) :
    a.Alike (x :: xs) (y :: ys) ↔
      n.data.agrees m.data = true ∧ a.Alike n.children m.children ∧ a.Alike xs ys := by
  constructor
  · intro h
    cases h with
    | same => exact absurd rfl hne
    | cons hx' hy' hdata hchildren h =>
      obtain rfl := Option.eq_some_unique hx hx'
      obtain rfl := Option.eq_some_unique hy hy'
      exact ⟨hdata, hchildren, h⟩
  · rintro ⟨hdata, hchildren, h⟩
    exact .cons hx hy hdata hchildren h

/-- What a comparison of `x` with `y` answers, and which nodes below it leaves to compare with which:
the children of both, or none. -/
structure Compared (a : Arena) (x y : NodeId) (out : List Bool) (us vs : List NodeId) : Prop where
  compare_eq : a.compare (x, y) = .ok (out, us.zip vs)
  length_eq : us.length = vs.length
  left : us = [] ∨ ∃ n, a.find? x = some n ∧ us = n.children
  right : vs = [] ∨ ∃ m, a.find? y = some m ∧ vs = m.children
  alike_iff : ∀ xs ys,
    a.Alike (x :: xs) (y :: ys) ↔ out.all id = true ∧ a.Alike us vs ∧ a.Alike xs ys

theorem exists_compared (hx : a.find? x = some n) (hy : a.find? y = some m) :
    ∃ out us vs, a.Compared x y out us vs := by
  by_cases hxy : x = y
  · subst hxy
    exact ⟨[], [], [], by simp [compare, get_eq_ok hx], rfl, .inl rfl, .inl rfl, by simp [Alike.nil]⟩
  have hcompare : a.compare (x, y) =
      .ok (if n.data.agrees m.data && n.children.length == m.children.length
        then ([true], n.children.zip m.children) else ([false], [])) := by
    simp only [compare, get_eq_ok hx, get_eq_ok hy, ok_bind, if_neg hxy]
    split <;> rfl
  split at hcompare
  next hagree =>
    obtain ⟨hdata, hlen⟩ := Bool.and_eq_true_iff.1 hagree
    refine ⟨[true], n.children, m.children, hcompare, beq_iff_eq.1 hlen, .inr ⟨n, hx, rfl⟩,
      .inr ⟨m, hy, rfl⟩, fun xs ys => ?_⟩
    simp [alike_cons_iff hx hy hxy, hdata]
  next hdiffer =>
    refine ⟨[false], [], [], hcompare, rfl, .inl rfl, .inl rfl, fun xs ys => ?_⟩
    rw [alike_cons_iff hx hy hxy]
    refine iff_of_false (fun ⟨hdata, hchildren, _⟩ => hdiffer ?_) (by simp)
    rw [hdata, hchildren.length_eq, beq_self_eq_true, Bool.and_self]

theorem Preorder.run_compare (h : a.Forest) (hp : a.Preorder xs zs) (hlen : xs.length = ys.length)
    (hys : ∀ y ∈ ys, ∃ m, a.find? y = some m) {fuel : Nat} (hf : zs.length ≤ fuel) :
    ∃ out, Worklist.run a.compare fuel (xs.zip ys) = .ok out ∧
      (out.all id = true ↔ a.Alike xs ys) := by
  induction fuel generalizing xs ys zs with
  | zero =>
    cases hp with
    | nil =>
      obtain rfl := List.eq_nil_of_length_eq_zero hlen.symm
      exact ⟨[], rfl, iff_of_true rfl .nil⟩
    | cons => simp at hf
  | succ fuel ih =>
    cases hp with
    | nil =>
      obtain rfl := List.eq_nil_of_length_eq_zero hlen.symm
      exact ⟨[], rfl, iff_of_true rfl .nil⟩
    | @cons x n ws xs zs hx hc hs =>
      cases ys with
      | nil => simp at hlen
      | cons y ys =>
        obtain ⟨hy, hys⟩ := List.forall_mem_cons.1 hys
        obtain ⟨m, hy⟩ := hy
        obtain ⟨out, us, vs, hcomp⟩ := exists_compared hx hy
        have hleft : ∃ ts, a.Preorder us ts ∧ ts.length ≤ ws.length := by
          rcases hcomp.left with rfl | ⟨n', hn', rfl⟩
          · exact ⟨[], .nil, Nat.zero_le _⟩
          · obtain rfl := Option.eq_some_unique hx hn'
            exact ⟨ws, hc, Nat.le_refl _⟩
        have hright : ∀ z ∈ vs, ∃ m, a.find? z = some m := by
          rcases hcomp.right with rfl | ⟨m', hm', rfl⟩
          · simp
          · exact h.child_live hm'
        obtain ⟨ts, hts, hle⟩ := hleft
        have hpending : (us ++ xs).length = (vs ++ ys).length := by
          simpa [hcomp.length_eq] using hlen
        have hfuel : (ts ++ zs).length ≤ fuel := by
          simp only [List.length_cons, List.length_append] at hf ⊢
          omega
        obtain ⟨rest, hrun, hrest⟩ := ih (hts.append hs) hpending
          (List.forall_mem_append.2 ⟨hright, hys⟩) hfuel
        rw [List.zip_append hcomp.length_eq] at hrun
        refine ⟨out ++ rest, Worklist.run_cons_ok hcomp.compare_eq hrun, ?_⟩
        rw [List.all_append, Bool.and_eq_true, hrest, alike_append_iff hcomp.length_eq,
          hcomp.alike_iff]

theorem Forest.decides_isEqual (h : a.Forest) (hx : a.find? x = some n) (hy : a.find? y = some m) :
    Decides (a.isEqual x y) (a.Alike [x] [y]) := by
  have hlen : (a.subtree x).length ≤ a.nextId + 1 :=
    Nat.le_succ_of_le (h.length_subtree_le hx)
  have hlive : ∀ z ∈ [y], ∃ m, a.find? z = some m := by simpa using ⟨m, hy⟩
  have hpair : [x].length = [y].length := rfl
  obtain ⟨out, hrun, hout⟩ := (h.preorder_spec hx).2.run_compare h hpair hlive hlen
  rw [List.zip_cons_cons, List.zip_nil_left] at hrun
  refine ⟨out.all id, ?_, hout⟩
  rw [isEqual, hrun]
  rfl

end DocTree.Arena
