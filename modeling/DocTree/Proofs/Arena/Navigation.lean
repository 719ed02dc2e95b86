import DocTree.Proofs.Arena.Forest
import DocTree.Proofs.Outcome

namespace DocTree.Arena

variable {a : Arena} {x y p : NodeId} {n m : Node} {ps xs : List NodeId}

theorem get_eq_ok (h : a.find? x = some n) : a.get x = .ok n := get_eq_ok_iff.2 h

theorem get_eq_error (h : a.find? x = none) : a.get x = .error (.unknownNode x) := by
  simp [get, h]

theorem parent_eq_ok (h : a.find? x = some n) : a.parent x = .ok n.parent := by
  rw [parent, get_eq_ok h]
  rfl

theorem get_map_eq_ok_iff {f : Node → α} {v : α} :
    (do return f (← a.get x)) = .ok v ↔ ∃ n, a.find? x = some n ∧ f n = v := by
  simp [bind_eq_ok_iff, get_eq_ok_iff]

theorem kind_eq_ok_iff {k : NodeKind} :
    a.kind x = .ok k ↔ ∃ n, a.find? x = some n ∧ n.kind = k :=
  get_map_eq_ok_iff

theorem parent_eq_ok_iff {o : Option NodeId} :
    a.parent x = .ok o ↔ ∃ n, a.find? x = some n ∧ n.parent = o :=
  get_map_eq_ok_iff

theorem Lineage.climb_eq (h : a.Lineage x ps) {fuel : Nat} (hf : ps.length < fuel) :
    climb a.parent fuel x = .ok ps := by
  induction h generalizing fuel with
  | root hx hn =>
    cases fuel with
    | zero => simp at hf
    | succ fuel => simp [climb, parent_eq_ok hx, hn]
  | under hp _ ih =>
    cases fuel with
    | zero => simp at hf
    | succ fuel =>
      obtain ⟨n, hx, hn⟩ := hp
      simp [climb, parent_eq_ok hx, hn, ih (Nat.lt_of_succ_lt_succ hf)]

theorem Lineage.ancestors_eq (h : a.Lineage x ps) : a.ancestors x = .ok ps :=
  h.climb_eq (Nat.lt_succ_of_lt h.length_lt)

theorem Lineage.root_eq (h : a.Lineage x ps) : a.root x = .ok (ps.getLast?.getD x) := by
  rw [Arena.root, h.ancestors_eq]
  rfl

theorem Lineage.root_spec (h : a.Lineage x ps) :
    ∃ r n, a.root x = .ok r ∧ a.find? r = some n ∧ n.parent = none ∧ a.Within r x := by
  rw [h.root_eq]
  induction h with
  | @root x n hx hn => exact ⟨x, n, rfl, hx, hn, .refl a x⟩
  | @under x p ps hp hps ih =>
    obtain ⟨r, n, hroot, hr, hn, hrp⟩ := ih
    refine ⟨r, n, ?_, hr, hn, hrp.trans (.inr ⟨p :: ps, .under hp hps, by simp⟩)⟩
    rw [← hroot, List.getLast?_cons]
    rfl

def isElementAt (a : Arena) (x : NodeId) : Bool := (a.find? x).any (·.isElement)

theorem isElementAt_eq (h : a.find? x = some n) : a.isElementAt x = n.isElement := by
  simp [isElementAt, h]

theorem isElementAt_iff : a.isElementAt x = true ↔ ∃ n, a.find? x = some n ∧ n.isElement = true := by
  cases h : a.find? x <;> simp [isElementAt, h]

theorem elementsOf_eq (h : ∀ x ∈ xs, ∃ n, a.find? x = some n) :
    a.elementsOf xs = .ok (xs.filter a.isElementAt) := by
  induction xs with
  | nil => rfl
  | cons x xs ih =>
    obtain ⟨n, hn⟩ := h x (by simp)
    have hxs := ih fun y hy => h y (List.mem_cons_of_mem _ hy)
    cases he : n.isElement <;>
      simp [elementsOf, get_eq_ok hn, hxs, isElementAt_eq hn, he]

theorem firstElement_eq (h : ∀ x ∈ xs, ∃ n, a.find? x = some n) :
    a.firstElement xs = .ok (xs.filter a.isElementAt).head? := by
  induction xs with
  | nil => rfl
  | cons x xs ih =>
    obtain ⟨n, hn⟩ := h x (by simp)
    have hxs := ih fun y hy => h y (List.mem_cons_of_mem _ hy)
    cases he : n.isElement <;>
      simp [firstElement, get_eq_ok hn, hxs, isElementAt_eq hn, he]

namespace Forest

variable (h : a.Forest)
include h

theorem child_live (hx : a.find? x = some n) : ∀ c ∈ n.children, ∃ m, a.find? c = some m := by
  intro c hc
  obtain ⟨m, hm, -⟩ := h.hasParent_of_mem hx hc
  exact ⟨m, hm⟩

theorem length_children_le (hx : a.find? x = some n) : n.children.length ≤ a.nextId :=
  length_le_of_live (h.children_nodup hx) (h.child_live hx)

theorem contains_decides (hx : a.find? x = some n) (hy : a.find? y = some m) :
    Decides (a.contains x y) (a.Above x y) := by
  obtain ⟨ps, hps⟩ := h.lineage hy
  refine ⟨ps.contains x, ?_, ?_⟩
  · rw [contains, get_eq_ok hx, hps.ancestors_eq]
    rfl
  · rw [List.contains_iff_mem]
    constructor
    · exact fun hx => ⟨ps, hps, hx⟩
    · rintro ⟨qs, hqs, hx⟩
      rwa [hps.unique hqs]

theorem children_eq (hx : a.find? x = some n) :
    a.children x = .ok (n.children.filter a.isElementAt) := by
  rw [Arena.children, get_eq_ok hx]
  exact elementsOf_eq (h.child_live hx)

theorem childElementCount_eq (hx : a.find? x = some n) :
    a.childElementCount x = .ok (n.children.filter a.isElementAt).length := by
  rw [childElementCount, h.children_eq hx]
  rfl

theorem firstChildElement_eq (hx : a.find? x = some n) :
    a.firstChildElement x = .ok (n.children.filter a.isElementAt).head? := by
  rw [firstChildElement, get_eq_ok hx]
  exact firstElement_eq (h.child_live hx)

theorem lastChildElement_eq (hx : a.find? x = some n) :
    a.lastChildElement x = .ok (n.children.filter a.isElementAt).getLast? := by
  rw [lastChildElement, get_eq_ok hx, List.getLast?_eq_head?_reverse, ← List.filter_reverse]
  exact firstElement_eq fun c hc => h.child_live hx c (List.mem_reverse.1 hc)

end Forest

end DocTree.Arena
