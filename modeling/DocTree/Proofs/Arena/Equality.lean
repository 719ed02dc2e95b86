import DocTree.Proofs.Arena.Likeness
import DocTree.Proofs.Attribute.Agreement

namespace DocTree

namespace Arena

/-- The nodes hold the same data, pair by pair, and so do the nodes below them. -/
inductive Twins (a : Arena) : List NodeId → List NodeId → Prop
  | nil : Twins a [] []
  | cons : a.find? x = some n → a.find? y = some m → n.data.Same m.data →
      Twins a n.children m.children → Twins a xs ys → Twins a (x :: xs) (y :: ys)

variable {a : Arena} {x y z : NodeId} {k n m : Node} {xs ys zs : List NodeId}

theorem Twins.symm (h : a.Twins xs ys) : a.Twins ys xs := by
  induction h with
  | nil => exact .nil
  | cons hx hy hdata _ _ ihc ihs => exact .cons hy hx hdata.symm ihc ihs

theorem Twins.trans (h : a.Twins xs ys) (hyz : a.Twins ys zs) : a.Twins xs zs := by
  induction h generalizing zs with
  | nil => exact hyz
  | cons hx hy hdata _ _ ihc ihs =>
    cases hyz with
    | cons hy' hz hdata' hc hs =>
      obtain rfl := Option.eq_some_unique hy hy'
      exact .cons hx hz (hdata.trans hdata') (ihc hc) (ihs hs)

theorem Twins.alike (h : a.Twins xs ys) : a.Alike xs ys := by
  induction h with
  | nil => exact .nil
  | cons hx hy hdata _ _ ihc ihs => exact .cons hx hy (NodeData.agrees_iff.2 hdata) ihc ihs

namespace Forest

variable (h : a.Forest)
include h

theorem disjoint_children (hx : a.find? x = some n) (hy : a.find? y = some m) (hxy : x ≠ y) :
    n.children.Disjoint m.children := fun _ hcx hcy =>
  hxy ((h.hasParent_of_mem hx hcx).unique (h.hasParent_of_mem hy hcy))

theorem twins_of_alike (hxy : a.Alike xs ys) (hd : xs.Disjoint ys) : a.Twins xs ys := by
  induction hxy with
  | nil => exact .nil
  | same _ _ => exact absurd hd (by simp)
  | @cons x n y m xs ys hx hy hdata _ _ ihc ihs =>
    have hne : x ≠ y := by
      rintro rfl
      exact hd List.mem_cons_self List.mem_cons_self
    have hrest : xs.Disjoint ys := fun z hzx hzy =>
      hd (List.mem_cons_of_mem x hzx) (List.mem_cons_of_mem y hzy)
    exact .cons hx hy (NodeData.agrees_iff.1 hdata) (ihc (h.disjoint_children hx hy hne))
      (ihs hrest)

theorem alike_iff : a.Alike [x] [y] ↔ x = y ∨ a.Twins [x] [y] := by
  constructor
  · intro hxy
    by_cases heq : x = y
    · exact .inl heq
    · exact .inr (h.twins_of_alike hxy (by simpa using Ne.symm heq))
  · rintro (rfl | hxy)
    · exact .same .nil
    · exact hxy.alike

end Forest

structure EqualityLaws (a : Arena) : Prop where
  decides : ∀ {x y n m}, a.find? x = some n → a.find? y = some m →
    Decides (a.isEqual x y) (x = y ∨ a.Twins [x] [y])
  refl : ∀ {x n}, a.find? x = some n → a.isEqual x x = .ok true
  symm : ∀ {x y n m}, a.find? x = some n → a.find? y = some m → a.isEqual x y = a.isEqual y x
  trans : ∀ {x y z n m k}, a.find? x = some n → a.find? y = some m → a.find? z = some k →
    a.isEqual x y = .ok true → a.isEqual y z = .ok true → a.isEqual x z = .ok true

theorem equal_comm : x = y ∨ a.Twins [x] [y] ↔ y = x ∨ a.Twins [y] [x] :=
  or_congr eq_comm ⟨.symm, .symm⟩

theorem equal_trans (hxy : x = y ∨ a.Twins [x] [y]) (hyz : y = z ∨ a.Twins [y] [z]) :
    x = z ∨ a.Twins [x] [z] := by
  rcases hxy with rfl | hxy
  · exact hyz
  · rcases hyz with rfl | hyz
    · exact .inr hxy
    · exact .inr (hxy.trans hyz)

theorem Forest.equalityLaws (h : a.Forest) : a.EqualityLaws := by
  have hdecides : ∀ {x y n m}, a.find? x = some n → a.find? y = some m →
      Decides (a.isEqual x y) (x = y ∨ a.Twins [x] [y]) := by
    intro x y n m hx hy
    rw [← h.alike_iff]
    exact h.decides_isEqual hx hy
  refine ⟨hdecides, fun hx => ?refl, fun hx hy => ?symm, fun hx hy hz hxy hyz => ?trans⟩
  case refl => exact (hdecides hx hx).eq_true_iff.2 (.inl rfl)
  case symm =>
    have hyx := hdecides hy hx
    rw [equal_comm] at hyx
    exact (hdecides hx hy).eq hyx
  case trans =>
    rw [(hdecides hx hy).eq_true_iff] at hxy
    rw [(hdecides hy hz).eq_true_iff] at hyz
    exact (hdecides hx hz).eq_true_iff.2 (equal_trans hxy hyz)

end Arena

end DocTree
