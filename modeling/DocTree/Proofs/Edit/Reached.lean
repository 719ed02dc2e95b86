import DocTree.Proofs.Arena.Equality
import DocTree.Proofs.Arena.Owners
import DocTree.Proofs.Arena.Stepping
import DocTree.Proofs.Arena.Visits
import DocTree.Proofs.Edit.Operation

namespace DocTree

namespace Arena

variable {a : Arena} {x d r : NodeId} {m n : Node}

structure KindRules (a : Arena) : Prop where
  single : ∀ {x}, a.kind x = .ok .document → ∃ k ≤ 1, a.childElementCount x = .ok k
  top : ∀ {x}, a.kind x = .ok .document → a.parent x = .ok none
  no_child : ∀ {x p cs}, a.kind x = .ok .document → a.childNodes p = .ok cs → x ∉ cs
  leaf : ∀ {x}, a.kind x = .ok .comment → a.childNodes x = .ok []

structure OwnerRules (a : Arena) : Prop where
  owned : ∀ {x k}, a.kind x = .ok k → k ≠ .document →
    ∃ d, a.ownerDocument x = .ok (some d) ∧ a.kind d = .ok .document
  unowned : ∀ {x n}, a.find? x = some n → n.isDocument = true → n.owner = none

structure TreeRules (a : Arena) : Prop where
  parent : ∀ {x p}, a.parent x = .ok (some p) →
    ∃ d, a.ownerDocument x = .ok (some d) ∧ a.nodeDocument p = .ok (some d)
  below : ∀ {x d xs}, a.kind d = .ok .document → a.descendants d = .ok xs → x ∈ xs →
    a.ownerDocument x = .ok (some d)
  detached : ∀ {x y r k}, a.root x = .ok r → a.root y = .ok r → a.kind r = .ok k → k ≠ .document →
    ∃ d, a.ownerDocument x = .ok (some d) ∧ a.ownerDocument y = .ok (some d)
  siblings : ∀ {x p}, a.kind x = .ok .element → a.parent x = .ok (some p) →
    ∃ ys, a.siblingElements x = .ok ys ∧ a.children p = .ok ys

namespace WellFormed

variable (h : a.WellFormed)
include h

theorem kindRules : a.KindRules where
  single hx := by
    obtain ⟨n, hn, hk⟩ := kind_eq_ok_iff.1 hx
    exact ⟨_, h.length_elements_le hn (decide_eq_true hk), h.childElementCount_eq hn⟩
  top hx := by
    obtain ⟨n, hn, hk⟩ := kind_eq_ok_iff.1 hx
    exact get_map_eq_ok_iff.2 ⟨n, hn, h.document_parent hn (decide_eq_true hk)⟩
  no_child hx hp hmem := by
    obtain ⟨n, hn, hk⟩ := kind_eq_ok_iff.1 hx
    obtain ⟨m, hm, rfl⟩ := get_map_eq_ok_iff.1 hp
    obtain ⟨j, hj, hjp⟩ := h.hasParent_of_mem hm hmem
    obtain rfl := Option.eq_some_unique hn hj
    exact of_decide_eq_false (h.not_document_of_hasParent hn hjp) hk
  leaf hx := by
    obtain ⟨n, hn, hk⟩ := kind_eq_ok_iff.1 hx
    exact get_map_eq_ok_iff.2 ⟨n, hn, h.comment_children hn (decide_eq_true hk)⟩

theorem ownerRules : a.OwnerRules where
  owned hx hk := by
    obtain ⟨n, hn, rfl⟩ := kind_eq_ok_iff.1 hx
    have hdoc : n.isDocument = false := decide_eq_false hk
    obtain ⟨d, m, ho, hm, hmd⟩ := h.owner_live hn hdoc
    refine ⟨d, get_map_eq_ok_iff.2 ⟨n, hn, ?_⟩, kind_eq_ok_iff.2 ⟨m, hm, of_decide_eq_true hmd⟩⟩
    rw [Node.ownerDocument_eq_owner hdoc, ho]
  unowned := h.document_owner

theorem ownerDocument_eq_ok (ho : a.OneOwner) (hr : a.find? r = some m) (hd : m.document = some d)
    (hx : a.find? x = some n) (hrx : a.Within r x) (hn : n.isDocument = false) :
    a.ownerDocument x = .ok (some d) := by
  refine get_map_eq_ok_iff.2 ⟨n, hx, ?_⟩
  rw [Node.ownerDocument_eq_owner hn, ← Node.document_eq_owner hn,
    h.document_eq_of_within ho hr hx hrx, hd]

theorem root_eq_ok (hx : a.root x = .ok r) :
    ∃ n m, a.find? x = some n ∧ a.find? r = some m ∧ a.Within r x := by
  cases hn : a.find? x with
  | none => simp [Arena.root, ancestors, climb, Arena.parent, get_eq_error hn] at hx
  | some n =>
    obtain ⟨ps, hps⟩ := h.lineage hn
    obtain ⟨r', m, hroot, hm, -, hrx⟩ := hps.root_spec
    obtain rfl := Except.ok.inj (hx.symm.trans hroot)
    exact ⟨n, m, rfl, hm, hrx⟩

theorem treeRules (ho : a.OneOwner) : a.TreeRules where
  parent hx := by
    obtain ⟨n, hn, hp⟩ := get_map_eq_ok_iff.1 hx
    obtain ⟨m, hm, -⟩ := h.parent_live ⟨n, hn, hp⟩
    obtain ⟨d, -, hd, -⟩ := h.document_live hm
    have hxp := h.above_of_hasParent ⟨n, hn, hp⟩
    exact ⟨d, h.ownerDocument_eq_ok ho hm hd hn (.inr hxp) (h.not_document_of_hasParent hn hp),
      get_map_eq_ok_iff.2 ⟨m, hm, hd⟩⟩
  below {x d xs} hd hxs hx := by
    obtain ⟨m, hm, hk⟩ := kind_eq_ok_iff.1 hd
    have hdoc : m.document = some d := by
      rw [Node.document_eq_self (decide_eq_true hk), h.id_eq hm]
    have hdx := (h.mem_descendants_iff hm hxs).1 hx
    obtain ⟨n, hn⟩ := Within.live (.inr hdx) hm
    exact h.ownerDocument_eq_ok ho hm hdoc hn (.inr hdx) (h.not_document_of_above hdx hn)
  detached {x y r k} hx hy hr hk := by
    obtain ⟨n, m, hn, hm, hrx⟩ := h.root_eq_ok hx
    obtain ⟨n', m', hn', hm', hry⟩ := h.root_eq_ok hy
    obtain rfl := Option.eq_some_unique hm hm'
    obtain ⟨j, hj, rfl⟩ := kind_eq_ok_iff.1 hr
    obtain rfl := Option.eq_some_unique hm hj
    obtain ⟨d, -, hd, -⟩ := h.document_live hm
    have hdoc : m.isDocument = false := decide_eq_false hk
    have hnone : ∀ z i, a.find? z = some i → a.Within r z → i.isDocument = false := fun z i hz hrz =>
      h.not_document_of_mem_subtree hm hdoc ((h.mem_subtree_iff hm).2 hrz) hz
    exact ⟨d, h.ownerDocument_eq_ok ho hm hd hn hrx (hnone x n hn hrx),
      h.ownerDocument_eq_ok ho hm hd hn' hry (hnone y n' hn' hry)⟩
  siblings _ hp := by
    obtain ⟨n, hn, hp⟩ := get_map_eq_ok_iff.1 hp
    obtain ⟨m, hm, -⟩ := h.parent_live ⟨n, hn, hp⟩
    have hchildren := h.children_eq hm
    exact ⟨_, (h.siblingElements_eq_children ho hn hp).trans hchildren, hchildren⟩

end WellFormed

end Arena

namespace Operation

variable {a : Arena} {op : Operation} {ops : List Operation}

/-- Adoption is asked, in a run, only for nodes that have no parent at that moment. -/
def AdoptsRoots : List Operation → Arena → Prop
  | [], _ => True
  | op :: ops, a => op.AdoptsRoot a ∧ AdoptsRoots ops (step a op)

instance decidableAdoptsRoot (a : Arena) : (op : Operation) → Decidable (op.AdoptsRoot a)
  | adopt _ x =>
    decidable_of_iff ((a.find? x).all (·.parent.isNone) = true) (by
      cases hx : a.find? x <;> simp [AdoptsRoot, hx])
  | createDocument | createElement .. | createComment .. | setAttribute .. | removeAttribute ..
  | setCommentText .. | rename .. | release _ | insertBefore .. | appendChild .. | replaceChild ..
  | removeChild .. | prepend .. | append .. | replaceChildren .. | clone .. => .isTrue trivial

instance decidableAdoptsRoots : (ops : List Operation) → (a : Arena) → Decidable (AdoptsRoots ops a)
  | [], _ => .isTrue trivial
  | op :: ops, a =>
    have := decidableAdoptsRoots ops (step a op)
    inferInstanceAs (Decidable (op.AdoptsRoot a ∧ AdoptsRoots ops (step a op)))

theorem oneOwner_step (h : a.WellFormed) (ho : a.OneOwner) (hroot : op.AdoptsRoot a) :
    (step a op).OneOwner :=
  h.keeps Arena.WellFormed.oneOwner_change (changes_step h hroot) ho

theorem oneOwner_of_adoptsRoots (h : a.WellFormed) (ho : a.OneOwner) (hops : AdoptsRoots ops a) :
    (run ops a).OneOwner := by
  induction ops generalizing a with
  | nil => exact ho
  | cons op ops ih => exact ih (wellFormed_step h op) (oneOwner_step h ho hops.1) hops.2

theorem kindRules_run (ops : List Operation) : (run ops .empty).KindRules :=
  (wellFormed_run Arena.wellFormed_empty ops).kindRules

theorem ownerRules_run (ops : List Operation) : (run ops .empty).OwnerRules :=
  (wellFormed_run Arena.wellFormed_empty ops).ownerRules

/-- Every run that adopts only nodes without parent keeps each tree under one owner. -/
theorem treeRules_run (hops : AdoptsRoots ops .empty) : (run ops .empty).TreeRules :=
  (wellFormed_run Arena.wellFormed_empty ops).treeRules
    (oneOwner_of_adoptsRoots Arena.wellFormed_empty Arena.oneOwner_empty hops)

theorem treeRules_run_clone :
    AdoptsRoots [createDocument, createDocument, createElement 0 "a", createComment 0 "b",
      appendChild 2 3, adopt 1 2, appendChild 1 2, clone 1 true] .empty ∧
    (run [createDocument, createDocument, createElement 0 "a", createComment 0 "b",
      appendChild 2 3, adopt 1 2, appendChild 1 2, clone 1 true] .empty).ownerDocument 6 =
        .ok (some 4) := by
  have hops : AdoptsRoots [createDocument, createDocument, createElement 0 "a",
      createComment 0 "b", appendChild 2 3, adopt 1 2, appendChild 1 2, clone 1 true] .empty := by
    decide
  exact ⟨hops, (treeRules_run hops).below rfl (show _ = Except.ok [5, 6] from rfl) (by simp)⟩

theorem equalityLaws_run (ops : List Operation) : (run ops .empty).EqualityLaws :=
  (wellFormed_run Arena.wellFormed_empty ops).toForest.equalityLaws

example :
    let a := run [createDocument, createElement 0 "a",
      setAttribute 1 "v" (.double ⟨0x7ff8000000000000⟩), clone 1 true] .empty
    a.isEqual 1 1 = .ok true ∧ a.isEqual 1 2 = .ok false :=
  ⟨rfl, rfl⟩

/-- After every run, walks down visit subtrees in pre-order, as the links up tell them, and the walks
from all nodes without parent visit each live node once. -/
theorem walkLaws_run (ops : List Operation) : (run ops .empty).WalkLaws :=
  (wellFormed_run Arena.wellFormed_empty ops).toForest.walkLaws

example :
    let a := run [createDocument, createElement 0 "a", createElement 0 "b", createComment 0 "c",
      append 1 [2], appendChild 2 3] .empty
    a.tops = [0, 1] ∧ a.descendants 1 = .ok [2, 3] ∧ a.contains 1 3 = .ok true ∧
      a.root 3 = .ok 1 :=
  ⟨rfl, rfl, rfl, rfl⟩

/-- After every run, steps forth and back between siblings undo each other, and the steps between
element siblings go through the element children of each node. -/
theorem siblingLaws_run (ops : List Operation) : (run ops .empty).SiblingLaws :=
  (wellFormed_run Arena.wellFormed_empty ops).toForest.siblingLaws

example :
    let a := run [createDocument, createElement 0 "a", createElement 0 "b", createComment 0 "c",
      createElement 0 "d", append 1 [2, 3, 4]] .empty
    a.nextSibling 2 = .ok (some 3) ∧ a.nextElementSibling 2 = .ok (some 4) ∧
      a.nextElementSibling 4 = .ok none :=
  ⟨rfl, rfl, rfl⟩

end Operation

end DocTree
