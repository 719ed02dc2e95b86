import DocTree.Proofs.Edit.Reached
import DocTree.Proofs.Selector.Uncommented

namespace DocTree

namespace Edit

variable {a b : Arena} {d p x y : NodeId} {n : Node} {child : Option NodeId} {text : String}
  {k : Nat}

theorem sameBare_createComment (h : a.WellFormed) (hrun : (createComment d text).run a = .ok x b) :
    a.SameBare b := by
  cases hd : a.expectDocument d with
  | error e => simp [createComment, hd] at hrun
  | ok _ =>
    rw [run_createComment hd] at hrun
    cases hrun
    refine h.sameBare_push ⟨?_, Arena.expectDocument_eq_ok_iff.1 hd⟩ rfl
    simp [NodeData.kind]

theorem sameBare_setCommentText (h : a.WellFormed)
    (hrun : (setCommentText x text).run a = .ok () b) : a.SameBare b := by
  cases hx : a.commentText x with
  | error e => simp [setCommentText, hx] at hrun
  | ok s =>
    obtain ⟨n, hn, hdata⟩ := Arena.commentText_eq_ok_iff.1 hx
    rw [run_setCommentText hn hdata] at hrun
    cases hrun
    refine h.sameBare_setData hn ?_ rfl
    simp [Node.isComment, Node.kind, hdata, NodeData.kind]

section

variable (h : a.WellFormed) (hx : a.find? x = some n) (hn : n.isComment = true)
include h hx hn

theorem sameBare_adopt (hrun : (adopt d x).run a = .ok y b) : a.SameBare b := by
  obtain ⟨e, he⟩ | ⟨_, m, -, -, hd, hdoc, hok⟩ := run_adopt_cases h.toForest d x
  · cases he.symm.trans hrun
  · cases hok.symm.trans hrun
    exact h.sameBare_own hx hn hd hdoc

theorem sameBare_insertBefore (hrun : (insertBefore p x child).run a = .ok y b) : a.SameBare b := by
  cases hcheck : a.checkInsertion p x child with
  | error e => simp [insertBefore, hcheck] at hrun
  | ok _ =>
    obtain ⟨m, k, hpx, hc, hs⟩ := (Arena.checkInsertion_eq_ok_iff h.toForest).1 hcheck
    obtain rfl := Option.eq_some_unique hx hpx.node
    obtain ⟨d, -, hd, -⟩ := h.document_live hpx.parent
    obtain ⟨ref, hr⟩ := h.reference_eq_ok hx child
    cases (run_insertBefore h hpx hs hc hr hd).symm.trans hrun
    exact h.sameBare_moved hx hn hpx hd

theorem sameBare_removeChild (hrun : (removeChild p x).run a = .ok y b) : a.SameBare b := by
  cases hp : a.get p with
  | error e => simp [removeChild, hp] at hrun
  | ok m =>
    cases hc : a.checkChild p x with
    | error e => simp [removeChild, hp, hc] at hrun
    | ok _ =>
      cases (run_removeChild h (Arena.checkChild_eq_ok_iff.1 hc)).symm.trans hrun
      exact h.sameBare_unlink hx hn

theorem sameBare_release (hrun : (release x).run a = .ok k b) : a.SameBare b := by
  by_cases hfree : Releasable a x n
  · cases (run_release h.toForest hx hfree).symm.trans hrun
    exact h.sameBare_drop hx hn hfree.1
  · obtain ⟨e, he, -⟩ := run_release_refused h.toForest hx hfree
    cases he.symm.trans hrun

end

end Edit

namespace Operation

open Arena

variable {a b : Arena} {op : Operation} {ops : List Operation}

def OnComment (a : Arena) : Operation → Prop
  | createComment .. | setCommentText .. => True
  | adopt _ x | release x | insertBefore _ x _ | appendChild _ x | removeChild _ x =>
    a.kind x = .ok .comment
  | _ => False

/-- The operations of a run deal with what are comments at that moment. -/
def OnComments : List Operation → Arena → Prop
  | [], _ => True
  | op :: ops, a => op.OnComment a ∧ OnComments ops (step a op)

instance decidableOnComment (a : Arena) : (op : Operation) → Decidable (op.OnComment a)
  | createComment .. | setCommentText .. => .isTrue trivial
  | adopt _ x | release x | insertBefore _ x _ | appendChild _ x | removeChild _ x =>
    inferInstanceAs (Decidable (a.kind x = .ok .comment))
  | createDocument | createElement .. | setAttribute .. | removeAttribute .. | rename ..
  | replaceChild .. | prepend .. | append .. | replaceChildren .. | clone .. => .isFalse id

instance decidableOnComments : (ops : List Operation) → (a : Arena) → Decidable (OnComments ops a)
  | [], _ => .isTrue trivial
  | op :: ops, a =>
    have := decidableOnComments ops (step a op)
    inferInstanceAs (Decidable (op.OnComment a ∧ OnComments ops (step a op)))

theorem exists_run_of_discard {edit : Edit α} (hrun : (discard edit : Edit Unit).run a = .ok () b) :
    ∃ v, edit.run a = .ok v b := by
  have hmap := (run_map (fun _ => ()) edit a).symm.trans hrun
  cases he : edit.run a with
  | ok v c =>
    rw [he] at hmap
    cases hmap
    exact ⟨v, rfl⟩
  | error e c =>
    rw [he] at hmap
    cases hmap

theorem sameBare_perform (h : a.WellFormed) (hop : op.OnComment a)
    (hrun : op.perform.run a = .ok () b) : a.SameBare b := by
  have hcomment : ∀ {x}, a.kind x = .ok .comment →
      ∃ n, a.find? x = some n ∧ n.isComment = true := by
    intro x hx
    obtain ⟨n, hn, hk⟩ := kind_eq_ok_iff.1 hx
    exact ⟨n, hn, decide_eq_true hk⟩
  cases op with
  | createComment d text =>
    obtain ⟨x, hedit⟩ := exists_run_of_discard hrun
    exact Edit.sameBare_createComment h hedit
  | setCommentText x text => exact Edit.sameBare_setCommentText h hrun
  | adopt d x =>
    obtain ⟨n, hx, hn⟩ := hcomment hop
    obtain ⟨y, hedit⟩ := exists_run_of_discard hrun
    exact Edit.sameBare_adopt h hx hn hedit
  | release x =>
    obtain ⟨n, hx, hn⟩ := hcomment hop
    obtain ⟨k, hedit⟩ := exists_run_of_discard hrun
    exact Edit.sameBare_release h hx hn hedit
  | insertBefore p x child | appendChild p x =>
    obtain ⟨n, hx, hn⟩ := hcomment hop
    obtain ⟨y, hedit⟩ := exists_run_of_discard hrun
    exact Edit.sameBare_insertBefore h hx hn hedit
  | removeChild p x =>
    obtain ⟨n, hx, hn⟩ := hcomment hop
    obtain ⟨y, hedit⟩ := exists_run_of_discard hrun
    exact Edit.sameBare_removeChild h hx hn hedit
  | _ => exact hop.elim

theorem sameBare_step (h : a.WellFormed) (hop : op.OnComment a) : a.SameBare (step a op) := by
  have hatomic := atomic_perform h op
  rw [Edit.Atomic] at hatomic
  rw [step]
  cases hrun : op.perform.run a with
  | ok _ b => exact sameBare_perform h hop hrun
  | error e b =>
    rw [hrun] at hatomic
    obtain rfl : b = a := hatomic
    exact .refl h

theorem sameBare_run (h : a.WellFormed) (hops : OnComments ops a) : a.SameBare (run ops a) := by
  induction ops generalizing a with
  | nil => exact .refl h
  | cons op ops ih => exact (sameBare_step h hops.1).trans (ih (wellFormed_step h op) hops.2)

end Operation

namespace Arena

variable {a : Arena} {r : NodeId} {n : Node} {ops : List Operation}

/-- A run of edits of comments, the refused ones included, leaves the answers of all queries. -/
theorem Reachable.queries_of_onComments (ha : a.Reachable) (hops : Operation.OnComments ops a)
    (hr : a.find? r = some n) (hn : n.isComment = false) (text names : String) :
    (∃ found, a.queryAll r (.parse text) = .ok found ∧
        (Operation.run ops a).queryAll r (.parse text) = .ok found) ∧
      (∃ first, a.query r (.parse text) = .ok first ∧
        (Operation.run ops a).query r (.parse text) = .ok first) ∧
      ∃ found, a.elementsByClass r names = .ok found ∧
        (Operation.run ops a).elementsByClass r names = .ok found :=
  (Operation.sameBare_run ha.wellFormed hops).queries_eq hr hn (.parse text) names

theorem queries_of_onComments_between : ∃ (a : Arena) (ops : List Operation),
    a.Reachable ∧ Operation.OnComments ops a ∧ a.childNodes 1 = .ok [2, 3] ∧
    (Operation.run ops a).childNodes 1 = .ok [2, 5, 3] ∧
    (∃ n, a.find? 1 = some n ∧ n.isComment = false) ∧
    a.queryAll 1 (.parse "b:empty ~ c:nth-child(2)") = .ok [3] ∧
    (Operation.run ops a).queryAll 1 (.parse "b:empty ~ c:nth-child(2)") = .ok [3] ∧
    a.query 1 (.parse "b:empty ~ c:nth-child(2)") = .ok (some 3) ∧
    (Operation.run ops a).query 1 (.parse "b:empty ~ c:nth-child(2)") = .ok (some 3) ∧
    a.elementsByClass 1 "k" = .ok [3] ∧
    (Operation.run ops a).elementsByClass 1 "k" = .ok [3] := by
  have h : (Operation.run [.createDocument, .createElement 0 "a", .createElement 0 "b",
      .createElement 0 "c", .createDocument, .setAttribute 3 "class" (.string "k"),
      .append 1 [2, 3]] .empty).Reachable := ⟨⟨_, rfl⟩, by decide +kernel⟩
  have hops : Operation.OnComments [.createComment 0 "x", .insertBefore 1 5 (some 3), .adopt 4 5,
      .setCommentText 5 "y", .createComment 0 "z", .appendChild 2 6, .removeChild 2 6, .release 6]
      (Operation.run [.createDocument, .createElement 0 "a", .createElement 0 "b",
        .createElement 0 "c", .createDocument, .setAttribute 3 "class" (.string "k"),
        .append 1 [2, 3]] .empty) := by decide +kernel
  obtain ⟨⟨all, hall, hallAfter⟩, ⟨first, hfirst, hfirstAfter⟩, found, hfound, hfoundAfter⟩ :=
    h.queries_of_onComments (r := 1) hops (Option.some_get (by decide +kernel)).symm
      (by decide +kernel) "b:empty ~ c:nth-child(2)" "k"
  obtain rfl : all = [3] := Except.ok.inj (hall.symm.trans (by decide +kernel))
  obtain rfl : first = some 3 := Except.ok.inj (hfirst.symm.trans (by decide +kernel))
  obtain rfl : found = [3] := Except.ok.inj (hfound.symm.trans (by decide +kernel))
  exact ⟨_, _, h, hops, by decide +kernel, by decide +kernel,
    ⟨_, (Option.some_get (by decide +kernel)).symm, by decide +kernel⟩,
    hall, hallAfter, hfirst, hfirstAfter, hfound, hfoundAfter⟩

end Arena

end DocTree
