import DocTree.Proofs.Arena.Mirror
import DocTree.Proofs.Attribute.Agreement
import DocTree.Proofs.Edit.Operation

namespace DocTree

namespace Arena

variable {a b : Arena} {x d : NodeId} {n m : Node} {cs : List NodeId} {name : String} {v : Value}

def HoldsNaN (a : Arena) (x : NodeId) : Prop :=
  ∃ y name v, a.Within x y ∧ a.getAttribute y name = .ok (some v) ∧ v.isNaN = true

theorem getAttribute_eq_ok_iff (hx : a.find? x = some n) :
    a.getAttribute x name = .ok (some v) ↔
      ∃ e, n.data = .element e ∧ e.attributes.get? name = some v := by
  cases hdata : n.data <;>
    simp [getAttribute, attributes, element, get_eq_ok hx, Node.element?, hdata]

theorem Forest.not_holdsNaN_iff (h : a.Forest) (hx : a.find? x = some n) :
    ¬ a.HoldsNaN x ↔
      ∀ y ∈ a.subtree x, ∀ m, a.find? y = some m → m.data.agrees m.data = true := by
  simp only [NodeData.agrees_self_iff, h.mem_subtree_iff hx]
  constructor
  · intro hnone y hxy m hm e he name v hv
    have hread := (getAttribute_eq_ok_iff hm).2 ⟨e, he, hv⟩
    exact Bool.eq_false_iff.2 fun hnan => hnone ⟨y, name, v, hxy, hread, hnan⟩
  · rintro hall ⟨y, name, v, hxy, hread, hnan⟩
    obtain ⟨m, hm⟩ := hxy.live hx
    obtain ⟨e, he, hv⟩ := (getAttribute_eq_ok_iff hm).1 hread
    exact Bool.false_ne_true ((hall y hxy m hm e he name v hv).symm.trans hnan)

/-- What a deep copy of the node `n` leaves: a copy at the top, copies of the nodes below, and the
old nodes as they were. -/
structure Cloned (a : Arena) (n : Node) (d : NodeId) (cs : List NodeId) (b : Arena) : Prop where
  wellFormed : b.WellFormed
  keeps : ∀ {y m}, a.find? y = some m → b.find? y = some m
  top : b.find? a.nextId = some { Node.detached a.nextId n.owner n.data with children := cs }
  document : (Node.detached a.nextId n.owner n.data).document = some d
  below : Mirrors a b d a.nextId (a.nextId + 1) n.children cs b.nextId

theorem Cloned.alike_iff (hc : Cloned a n d cs b) (h : a.WellFormed) (hx : a.find? x = some n) :
    b.Alike [x] [a.nextId] ↔
      ∀ y ∈ a.subtree x, ∀ m, a.find? y = some m → m.data.agrees m.data = true := by
  obtain ⟨ys, hys, hsub⟩ := h.exists_preorder_children hx
  have hne : x ≠ a.nextId := Nat.ne_of_lt (find?_lt hx)
  rw [alike_cons_iff (hc.keeps hx) hc.top hne, hc.below.alike_iff hys hc.keeps (Nat.le_succ _), hsub]
  simp [Node.detached, hx, Alike.nil]

end Arena

open Arena in
theorem Edit.run_clone_cloned {a : Arena} {x : NodeId} {n : Node} (h : a.WellFormed)
    (hx : a.find? x = some n) :
    ∃ d cs b, (clone x true).run a = .ok a.nextId b ∧ Cloned a n d cs b := by
  obtain ⟨b, hrun, hcopies⟩ := run_clone_deep h hx
  have hr := h.ready hx
  obtain ⟨d, -, hd, -⟩ := hr.wellFormed.document_live hr.parent
  have hcopied := hr.copied h hcopies
  obtain ⟨cs, htop, hbelow⟩ := hr.mirrors h hd hcopies
  rw [nextId_push] at hbelow
  refine ⟨d, cs, b, hrun, hcopied.wellFormed, fun hy => ?_, htop, hd, hbelow⟩
  exact hcopied.keeps (hr.keeps hy) (hr.ne_parent hy)

namespace Arena

variable {a : Arena} {x : NodeId} {n : Node}

/-- A deep copy is another node, and it is equal to its original unless an attribute there is no
number. -/
theorem Reachable.isEqual_clone (ha : a.Reachable) (hx : a.find? x = some n) :
    ∃ c b, (Edit.clone x true).run a = .ok c b ∧ Decides (b.isEqual x c) (¬ a.HoldsNaN x) ∧
      isSame x c = false := by
  have h := ha.wellFormed
  obtain ⟨d, cs, b, hrun, hc⟩ := Edit.run_clone_cloned h hx
  refine ⟨a.nextId, b, hrun, ?_, beq_false_of_ne (Nat.ne_of_lt (find?_lt hx))⟩
  rw [h.not_holdsNaN_iff hx, ← hc.alike_iff h hx]
  exact hc.wellFormed.decides_isEqual (hc.keeps hx) hc.top

theorem isEqual_clone_zero : ∃ a : Arena, a.Reachable ∧
    ∃ c b, (Edit.clone 1 true).run a = .ok c b ∧ Decides (b.isEqual 1 c) (¬ a.HoldsNaN 1) ∧
      isSame 1 c = false := by
  have h : (Operation.run [.createDocument, .createElement 0 "a",
      .setAttribute 1 "v" (.double ⟨0x8000000000000000⟩), .createComment 0 "c",
      .appendChild 1 2] .empty).Reachable := ⟨⟨_, rfl⟩, by decide⟩
  exact ⟨_, h, h.isEqual_clone rfl⟩

theorem isEqual_clone_nan : ¬ ∀ (a : Arena) (x : NodeId) (n : Node), a.Reachable →
    a.find? x = some n → ∃ c b, (Edit.clone x true).run a = .ok c b ∧
      b.isEqual x c = .ok true ∧ isSame x c = false := by
  intro hall
  have h : (Operation.run [.createDocument, .createElement 0 "a",
      .setAttribute 1 "v" (.double ⟨0x7ff8000000000000⟩)] .empty).Reachable :=
    ⟨⟨_, rfl⟩, by decide⟩
  obtain ⟨c, b, hrun, heq, -⟩ := hall _ 1 _ h rfl
  cases hrun
  cases heq

end Arena

end DocTree
