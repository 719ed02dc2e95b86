import DocTree.Proofs.Arena.Siblings
import DocTree.Proofs.Edit.Admission
import DocTree.Proofs.Edit.Basic

namespace DocTree

namespace Arena

variable {a : Arena} {p x c d : NodeId} {m n : Node} {child ref : Option NodeId}

def reference (a : Arena) (x : NodeId) (child : Option NodeId) : Except Error (Option NodeId) :=
  if child = some x then a.nextSibling x else .ok child

theorem Forest.around_eq_ok (h : a.Forest) (hx : a.find? x = some n) :
    ∃ r, a.around x = .ok r := by
  cases hp : n.parent with
  | none => exact ⟨_, around_root hx hp⟩
  | some p =>
    obtain ⟨m, before, after, hm, hsplit⟩ := h.exists_split ⟨n, hx, hp⟩
    exact ⟨_, h.around_eq ⟨n, hx, hp⟩ hm hsplit⟩

theorem Forest.reference_eq_ok (h : a.Forest) (hx : a.find? x = some n) (child : Option NodeId) :
    ∃ ref, a.reference x child = .ok ref := by
  rw [reference]
  split
  · obtain ⟨r, hr⟩ := h.around_eq_ok hx
    exact ⟨r.2.head?, by simp [nextSibling, hr]⟩
  · exact ⟨child, rfl⟩

theorem find?_update_of_live (hx : a.find? x = some n) (y : NodeId) (f : Node → Node) :
    ∃ k, (a.update y f).find? x = some k := by
  rw [find?_update, hx]
  split
  · exact ⟨f n, rfl⟩
  · exact ⟨n, rfl⟩

end Arena

namespace Edit

variable {a : Arena} {p x c d : NodeId} {m n : Node} {child ref : Option NodeId}

theorem run_detach (h : a.Forest) (hx : a.find? x = some n) :
    (detach x).run a = .ok () (a.unlink x) := by
  cases hp : n.parent with
  | none => simp [detach, Arena.get_eq_ok hx, hp, h.unlink_eq_self hx hp]
  | some p =>
    obtain ⟨m, hm, -⟩ := h.parent_live ⟨n, hx, hp⟩
    obtain ⟨k, hk⟩ := Arena.find?_update_of_live hx p
      fun n => { n with children := n.children.filter (· != x) }
    have hunlink : ((a.update p fun n => { n with children := n.children.filter (· != x) }).update x
        ({ · with parent := none })) = a.unlink x := by
      rw [Arena.update_eq_mapNodes, Arena.update_eq_mapNodes, Arena.mapNodes_mapNodes, Arena.unlink]
      apply Arena.mapNodes_congr
      intro y j hy
      have hchildren : p ≠ y → j.children.filter (· != x) = j.children := fun hne =>
        h.filter_children_eq_self hy fun hxy => hne (Arena.HasParent.unique ⟨n, hx, hp⟩ hxy)
      by_cases hpy : p = y
      · by_cases hxy : x = y <;> simp [hxy, hpy, eq_comm (a := y)]
      · rw [hchildren hpy, if_neg hpy]
        by_cases hxy : x = y <;> simp [hxy, eq_comm (a := y)]
    simp [detach, Arena.get_eq_ok hx, hp, run_update hm, run_update hk, hunlink]

theorem run_adoptInto (h : a.Forest) (hp : a.find? p = some m) (hd : m.document = some d)
    (hx : a.find? x = some n) :
    (adoptInto p x).run a = .ok () (a.own (a.subtree x) d) := by
  simp [adoptInto, Arena.get_eq_ok hp, hd, run_setOwner h hx]

theorem update_update_eq_link (a : Arena) (p x : NodeId) (ref : Option NodeId) :
    (a.update p fun n => { n with children := insertInto x ref n.children }).update x
      ({ · with parent := some p }) = a.link p x ref := by
  rw [Arena.update_eq_mapNodes, Arena.update_eq_mapNodes, Arena.mapNodes_mapNodes, Arena.link]
  apply Arena.mapNodes_congr
  intro y n _
  by_cases hx : x = y <;> by_cases hp : p = y <;> simp [hx, hp, eq_comm (a := y)]

theorem run_move (h : a.WellFormed) (hp : a.find? p = some m) (hx : a.find? x = some n)
    (hd : m.document = some d) (ref : Option NodeId) (rest : Edit α) :
    (do
      detach x
      adoptInto p x
      update p fun n => { n with children := insertInto x ref n.children }
      update x ({ · with parent := some p })
      rest).run a = rest.run (a.moved p x d ref) := by
  have hadopt := run_adoptInto (h.unlink x).toForest
    (Arena.find?_mapNodes_of_live hp) hd (Arena.find?_mapNodes_of_live hx)
  rw [h.subtree_unlink hx] at hadopt
  have hp' : ((a.unlink x).own (a.subtree x) d).find? p = some _ :=
    Arena.find?_mapNodes_of_live (Arena.find?_mapNodes_of_live hp)
  have hx' : ((a.unlink x).own (a.subtree x) d).find? x = some _ :=
    Arena.find?_mapNodes_of_live (Arena.find?_mapNodes_of_live hx)
  obtain ⟨k, hk⟩ := Arena.find?_update_of_live hx' p
    fun n => { n with children := insertInto x ref n.children }
  simp only [EStateM.run_bind, run_detach h.toForest hx, hadopt, run_update hp', run_update hk,
    update_update_eq_link, Arena.moved]

theorem run_insertBefore (h : a.WellFormed) (hpx : a.Admits p x m n) (hs : a.Spare m n)
    (hc : ∀ c, child = some c → a.HasParent c p) (hr : a.reference x child = .ok ref)
    (hd : m.document = some d) :
    (insertBefore p x child).run a = .ok x (a.moved p x d ref) := by
  have hcheck := (Arena.checkInsertion_of_admits h.toForest hpx).2 ⟨hc, hs⟩
  have hmove := run_move h hpx.parent hpx.node hd ref (pure x)
  simp only [insertBefore, EStateM.run_bind, EStateM.run_get, hcheck, liftM_ok, EStateM.run_pure]
  rw [Arena.reference] at hr
  split at hr
  next hcx =>
    rw [if_pos hcx, EStateM.run_bind, EStateM.run_get]
    change EStateM.run (liftM (a.nextSibling x) >>= _) a = _
    rw [EStateM.run_bind, hr]
    exact hmove
  next hcx =>
    obtain rfl : child = ref := Except.ok.inj hr
    rw [if_neg hcx]
    exact hmove

theorem stepwise_insertBefore (h : a.WellFormed) (p x : NodeId) (child : Option NodeId) :
    (insertBefore p x child).Stepwise a := by
  cases hcheck : a.checkInsertion p x child with
  | error e => exact stepwise_of_error (e := e) (by simp [insertBefore, hcheck])
  | ok _ =>
    obtain ⟨m, n, hpx, hc, hs⟩ := (Arena.checkInsertion_eq_ok_iff h.toForest).1 hcheck
    obtain ⟨d, -, hd, -⟩ := h.document_live hpx.parent
    obtain ⟨ref, hr⟩ := h.reference_eq_ok hpx.node child
    exact stepwise_of_ok (run_insertBefore h hpx hs hc hr hd) (h.changes_moved hpx hs hd ref)

theorem run_removeChild (h : a.WellFormed) (hc : a.HasParent c p) :
    (removeChild p c).run a = .ok c (a.unlink c) := by
  obtain ⟨m, hp, -⟩ := h.parent_live hc
  obtain ⟨n, hn, -⟩ := id hc
  simp [removeChild, Arena.get_eq_ok hp, Arena.checkChild_eq_ok_iff.2 hc,
    run_detach h.toForest hn]

theorem stepwise_removeChild (h : a.WellFormed) (p c : NodeId) : (removeChild p c).Stepwise a := by
  cases hp : a.get p with
  | error e => exact stepwise_of_error (e := e) (by simp [removeChild, hp])
  | ok m =>
    cases hc : a.checkChild p c with
    | error e => exact stepwise_of_error (e := e) (by simp [removeChild, hp, hc])
    | ok _ =>
      exact stepwise_of_ok (run_removeChild h (Arena.checkChild_eq_ok_iff.1 hc)) (.single (Arena.change_unlink a c))

theorem update_update_update_eq_replaced (a : Arena) (p x c d : NodeId) :
    ((((a.unlink x).own (a.subtree x) d).update p
      fun n => { n with children := n.children.replace c x }).update x
        ({ · with parent := some p })).update c ({ · with parent := none }) =
      a.replaced p x c d := by
  simp only [Arena.update_eq_mapNodes, Arena.unlink, Arena.own, Arena.mapNodes_mapNodes,
    Arena.replaced]
  apply Arena.mapNodes_congr
  intro y n _
  by_cases hc : c = y <;> by_cases hx : x = y <;> by_cases hp : p = y <;>
    simp [hc, hx, hp, eq_comm (a := y)]

theorem run_replaceChild (h : a.WellFormed) (hpx : a.Admits p x m n) (hc : a.HasParent c p)
    (hs : a.SpareBut m n c) (hd : m.document = some d) (hxc : x ≠ c) :
    (replaceChild p x c).run a = .ok x (a.replaced p x c d) := by
  have hcheck := (Arena.checkReplacement_of_admits h hpx).2 ⟨hc, hs⟩
  have hadopt := run_adoptInto (h.unlink x).toForest
    (Arena.find?_mapNodes_of_live hpx.parent) hd (Arena.find?_mapNodes_of_live hpx.node)
  rw [h.subtree_unlink hpx.node] at hadopt
  obtain ⟨k, hk, -⟩ := id hc
  have hlive : ∀ {y j}, a.find? y = some j →
      ((a.unlink x).own (a.subtree x) d).find? y = some _ := fun hy =>
    Arena.find?_mapNodes_of_live (Arena.find?_mapNodes_of_live hy)
  have hmem : c ∈ m.children.filter (· != x) :=
    List.mem_filter.2 ⟨(h.mem_children_iff hpx.parent).2 hc, by simpa using hxc.symm⟩
  obtain ⟨x₁, hx₁⟩ := Arena.find?_update_of_live (hlive hpx.node) p
    fun n => { n with children := n.children.replace c x }
  obtain ⟨c₁, hc₁⟩ := Arena.find?_update_of_live (hlive hk) p
    fun n => { n with children := n.children.replace c x }
  obtain ⟨c₂, hc₂⟩ := Arena.find?_update_of_live hc₁ x ({ · with parent := some p })
  simp [replaceChild, hcheck, hxc, run_detach h.toForest hpx.node, hadopt,
    Arena.get_eq_ok (hlive hpx.parent), hmem, run_update (hlive hpx.parent), run_update hx₁,
    run_update hc₂, update_update_update_eq_replaced]

theorem run_replaceChild_eq_ok {b : Arena} {y : NodeId} (h : a.WellFormed) (hxc : x ≠ c)
    (hrun : (replaceChild p x c).run a = .ok y b) :
    ∃ m n d, a.Admits p x m n ∧ a.HasParent c p ∧ a.SpareBut m n c ∧ m.document = some d ∧
      b = a.replaced p x c d := by
  cases hcheck : a.checkReplacement p x c with
  | error e => simp [replaceChild, hcheck] at hrun
  | ok _ =>
    obtain ⟨m, n, hpx, hc, hs⟩ := (Arena.checkReplacement_eq_ok_iff h).1 hcheck
    obtain ⟨d, -, hd, -⟩ := h.document_live hpx.parent
    cases hrun.symm.trans (run_replaceChild h hpx hc hs hd hxc)
    exact ⟨m, n, d, hpx, hc, hs, hd, rfl⟩

theorem stepwise_replaceChild (h : a.WellFormed) (p x c : NodeId) : (replaceChild p x c).Stepwise a := by
  cases hcheck : a.checkReplacement p x c with
  | error e => exact stepwise_of_error (e := e) (by simp [replaceChild, hcheck])
  | ok _ =>
    by_cases hxc : x = c
    · subst hxc
      exact stepwise_of_ok (v := x) (b := a) (by simp [replaceChild, hcheck]) .refl
    · obtain ⟨m, n, hpx, hc, hs⟩ := (Arena.checkReplacement_eq_ok_iff h).1 hcheck
      obtain ⟨d, -, hd, -⟩ := h.document_live hpx.parent
      exact stepwise_of_ok (run_replaceChild h hpx hc hs hd hxc) (h.changes_replaced hpx hc hs hd hxc)

end Edit

end DocTree
