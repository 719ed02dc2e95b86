import DocTree.Proofs.Arena.Moving

namespace DocTree

namespace Arena

variable {a : Arena} {p x c d : NodeId} {m n : Node} {child : Option NodeId}

theorem admits_of_live (hp : a.find? p = some m) (hx : a.find? x = some n) :
    (∃ m n, a.Admits p x m n) ↔
      m.isComment = false ∧ n.isDocument = false ∧ ¬ a.Within x p := by
  constructor
  · rintro ⟨m', n', hpx⟩
    obtain rfl := Option.eq_some_unique hp hpx.parent
    obtain rfl := Option.eq_some_unique hx hpx.node
    exact ⟨hpx.not_comment, hpx.not_document, hpx.not_within⟩
  · rintro ⟨hm, hn, hw⟩
    exact ⟨m, n, hp, hm, hx, hn, hw⟩

theorem checkParent_eq_ok_iff (h : a.Forest) :
    a.checkParent p x = .ok () ↔ ∃ m n, a.Admits p x m n := by
  cases hp : a.find? p with
  | none =>
    constructor
    · simp [checkParent, get_eq_error hp]
    · rintro ⟨m, n, hpx⟩
      simp [hpx.parent] at hp
  | some m =>
    cases hx : a.find? x with
    | none =>
      constructor
      · cases hm : m.isComment <;>
          simp [checkParent, get_eq_ok hp, get_eq_error hx, hm]
      · rintro ⟨m, n, hpx⟩
        simp [hpx.node] at hx
    | some n =>
      obtain ⟨b, hb, hiff⟩ := h.contains_decides hx hp
      rw [admits_of_live hp hx, Within, ← hiff, eq_comm (a := p), ← beq_iff_eq (a := x)]
      cases hm : m.isComment <;> cases hn : n.isDocument <;> cases hxp : x == p <;> cases b <;>
        simp [checkParent, get_eq_ok hp, get_eq_ok hx, hm, hn, hb, hxp]

theorem checkChild_eq_ok_iff : a.checkChild p c = .ok () ↔ a.HasParent c p := by
  simp only [checkChild, bind_eq_ok_iff, get_eq_ok_iff, HasParent]
  refine exists_congr fun n => and_congr_right fun _ => ?_
  by_cases hp : n.parent = some p <;> simp [hp]

theorem isDocumentElement_eq (hp : a.find? p = some m) (hx : a.find? x = some n) :
    a.isDocumentElement p x = .ok (m.isDocument && n.isElement) := by
  simp [isDocumentElement, get_eq_ok hp, get_eq_ok hx]

theorem spare_iff :
    a.Spare m n ↔
      ((m.isDocument && n.isElement) = true → (m.children.filter a.isElementAt).length = 0) := by
  simp [Spare, List.filter_eq_nil_iff]

theorem checkInsertion_of_admits (h : a.Forest) (hpx : a.Admits p x m n) :
    a.checkInsertion p x child = .ok () ↔
      (∀ c, child = some c → a.HasParent c p) ∧ a.Spare m n := by
  have hparent := (checkParent_eq_ok_iff h).2 ⟨m, n, hpx⟩
  have helement := isDocumentElement_eq hpx.parent hpx.node
  have hcount := h.childElementCount_eq hpx.parent
  rw [spare_iff]
  cases child with
  | none =>
    cases he : m.isDocument && n.isElement <;>
      simp [checkInsertion, hparent, helement, hcount, he]
  | some c =>
    cases hc : a.checkChild p c with
    | error e =>
      have hnot : ¬ a.HasParent c p := fun hp => by simp [checkChild_eq_ok_iff.2 hp] at hc
      simp [checkInsertion, hparent, hc, hnot]
    | ok _ =>
      have hp := checkChild_eq_ok_iff.1 hc
      cases he : m.isDocument && n.isElement <;>
        simp [checkInsertion, hparent, helement, hcount, he, hc, hp]

theorem checkInsertion_eq_ok_iff (h : a.Forest) :
    a.checkInsertion p x child = .ok () ↔
      ∃ m n, a.Admits p x m n ∧ (∀ c, child = some c → a.HasParent c p) ∧ a.Spare m n := by
  constructor
  · intro hcheck
    have hparent : a.checkParent p x = .ok () := by
      obtain ⟨_, hparent, -⟩ := bind_eq_ok_iff.1 hcheck
      exact hparent
    obtain ⟨m, n, hpx⟩ := (checkParent_eq_ok_iff h).1 hparent
    exact ⟨m, n, hpx, (checkInsertion_of_admits h hpx).1 hcheck⟩
  · rintro ⟨m, n, hpx, hrest⟩
    exact (checkInsertion_of_admits h hpx).2 hrest

theorem WellFormed.spareBut_iff (h : a.WellFormed) (hp : a.find? p = some m) :
    a.SpareBut m n c ↔ ((m.isDocument && n.isElement) = true →
      ∀ e, (m.children.filter a.isElementAt).head? = some e → e = c) := by
  simp only [SpareBut, Bool.and_eq_true, and_imp]
  refine imp_congr_right fun hdoc => imp_congr_right fun _ => ?_
  constructor
  · intro hall e he
    obtain ⟨hmem, hel⟩ := List.mem_filter.1 (List.mem_of_mem_head? he)
    exact hall e hmem hel
  · intro hhead e hmem hel
    cases hfilter : m.children.filter a.isElementAt with
    | nil => simp [List.filter_eq_nil_iff.1 hfilter e hmem] at hel
    | cons f fs =>
      have hf : f ∈ m.children.filter a.isElementAt := by simp [hfilter]
      obtain ⟨hfmem, hfel⟩ := List.mem_filter.1 hf
      rw [h.document_element hp hdoc hmem hfmem hel hfel]
      exact hhead f (by rw [hfilter]; rfl)

theorem checkReplacement_of_admits (h : a.WellFormed) (hpx : a.Admits p x m n) :
    a.checkReplacement p x c = .ok () ↔ a.HasParent c p ∧ a.SpareBut m n c := by
  have hparent := (checkParent_eq_ok_iff h.toForest).2 ⟨m, n, hpx⟩
  have helement := isDocumentElement_eq hpx.parent hpx.node
  have hfirst := h.firstChildElement_eq hpx.parent
  rw [h.spareBut_iff hpx.parent]
  cases hc : a.checkChild p c with
  | error e =>
    have hnot : ¬ a.HasParent c p := fun hp => by simp [checkChild_eq_ok_iff.2 hp] at hc
    simp [checkReplacement, hparent, hc, hnot]
  | ok _ =>
    have hp := checkChild_eq_ok_iff.1 hc
    cases he : m.isDocument && n.isElement <;>
      cases hf : (m.children.filter a.isElementAt).head? <;>
      simp [checkReplacement, hparent, helement, hfirst, he, hf, hc, hp]

theorem checkReplacement_eq_ok_iff (h : a.WellFormed) :
    a.checkReplacement p x c = .ok () ↔
      ∃ m n, a.Admits p x m n ∧ a.HasParent c p ∧ a.SpareBut m n c := by
  constructor
  · intro hcheck
    have hparent : a.checkParent p x = .ok () := by
      obtain ⟨_, hparent, -⟩ := bind_eq_ok_iff.1 hcheck
      exact hparent
    obtain ⟨m, n, hpx⟩ := (checkParent_eq_ok_iff h.toForest).1 hparent
    exact ⟨m, n, hpx, (checkReplacement_of_admits h hpx).1 hcheck⟩
  · rintro ⟨m, n, hpx, hrest⟩
    exact (checkReplacement_of_admits h hpx).2 hrest

end Arena

end DocTree
