import DocTree.Proofs.Edit.Operation
import DocTree.Proofs.Failure.Readers

namespace DocTree

variable {a b : Arena} {given : List NodeId} {p x c d : NodeId} {n : Node} {xs : List NodeId}

namespace Yields

theorem checkChild (hc : a.Known given c) : FailsDueTo a given (a.checkChild p c) := by
  refine (Yields.get hc).bind fun n _ => ?_
  split
  · exact .error trivial
  · exact .ok trivial

theorem isDocumentElement (hp : a.Known given p) (hx : a.Known given x) :
    FailsDueTo a given (a.isDocumentElement p x) :=
  (Yields.get hp).bind fun _ _ => (Yields.get hx).andReturn

variable (h : a.Forest)
include h

theorem checkParent (hp : a.Known given p) (hx : a.Known given x) :
    FailsDueTo a given (a.checkParent p x) := by
  refine (Yields.get hp).bind fun m _ => ?_
  split
  · exact .error trivial
  refine (Yields.get hx).bind fun n _ => ?_
  split
  · exact .error trivial
  refine (contains h hx hp).bind fun b _ => ?_
  split
  · exact .error trivial
  · exact .ok trivial

theorem checkSpare (hp : a.Known given p) (hx : a.Known given x) :
    FailsDueTo a given (do
      if ← a.isDocumentElement p x then
        if (← a.childElementCount p) ≠ 0 then throw Error.secondElement) := by
  refine (isDocumentElement hp hx).bind fun b _ => ?_
  split
  · refine (childElementCount h hp).bind fun k _ => ?_
    split
    · exact .error trivial
    · exact .ok trivial
  · exact .ok trivial

theorem checkInsertion (hp : a.Known given p) (hx : a.Known given x) {child : Option NodeId}
    (hchild : ∀ c ∈ child, a.Known given c) :
    FailsDueTo a given (a.checkInsertion p x child) := by
  refine (checkParent h hp hx).bind fun _ _ => ?_
  cases child with
  | none => exact checkSpare h hp hx
  | some c => exact (checkChild (hchild c rfl)).bind fun _ _ => checkSpare h hp hx

theorem checkReplacement (hp : a.Known given p) (hx : a.Known given x) (hc : a.Known given c) :
    FailsDueTo a given (a.checkReplacement p x c) := by
  refine (checkParent h hp hx).bind fun _ _ => (checkChild hc).bind fun _ _ =>
    (isDocumentElement hp hx).bind fun b _ => ?_
  split
  · refine (firstChildElement h hp).bind fun o _ => ?_
    split
    · split
      · exact .error trivial
      · exact .ok trivial
    · exact .ok trivial
  · exact .ok trivial

theorem checkAll (hp : a.Known given p) (hxs : ∀ x ∈ xs, a.Known given x) (replacing : Bool) :
    FailsDueTo a given (a.checkAll p xs replacing) := by
  refine (Yields.forM fun x hx => ?_).bind fun _ _ => (Yields.get hp).bind fun n _ => ?_
  · split
    · exact checkParent h hp (hxs x hx)
    · exact checkInsertion h hp (hxs x hx) nofun
  · split
    · refine (elementsOf hxs).bind fun ys _ => ?_
      split
      · exact .error trivial
      · exact .ok trivial
    · exact .ok trivial

end Yields

namespace Edit

variable {edit : Edit α} {check : Except Error β} {e : Error}

/-- The edit goes through if the check passes, and else fails as the check does. -/
def GuardedBy (edit : Edit α) (a : Arena) (check : Except Error β) : Prop :=
  match check with
  | .ok _ => ∃ v b, edit.run a = .ok v b
  | .error e => edit.run a = .error e a

def FailsDueTo (edit : Edit α) (a : Arena) (given : List NodeId) : Prop :=
  ∀ e b, edit.run a = .error e b → e.DueTo a given

theorem failsDueTo_of_ok {v : α} (h : edit.run a = .ok v b) : edit.FailsDueTo a given := by
  intro e b' hrun
  rw [h] at hrun
  cases hrun

theorem failsDueTo_of_error (h : edit.run a = .error e b) (he : e.DueTo a given) :
    edit.FailsDueTo a given := by
  intro e' b' hrun
  rw [h] at hrun
  cases hrun
  exact he

theorem GuardedBy.check_eq (h : edit.GuardedBy a check) (hrun : edit.run a = .error e b) :
    check = .error e := by
  cases check with
  | ok _ =>
    obtain ⟨v, b', hok⟩ := h
    rw [hok] at hrun
    cases hrun
  | error e' =>
    have herror : edit.run a = .error e' a := h
    rw [herror] at hrun
    cases hrun
    rfl

theorem GuardedBy.failsDueTo {P : β → Prop} (h : edit.GuardedBy a check)
    (hcheck : Yields (Error.DueTo a given) P check) : edit.FailsDueTo a given := by
  intro e b hrun
  rw [h.check_eq hrun] at hcheck
  exact hcheck

theorem FailsDueTo.map (h : edit.FailsDueTo a given) (f : α → β) :
    (f <$> edit).FailsDueTo a given := by
  intro e b hrun
  rw [run_map] at hrun
  cases hedit : edit.run a with
  | ok v b' =>
    rw [hedit] at hrun
    cases hrun
  | error e' b' =>
    rw [hedit] at hrun
    cases hrun
    exact h e b hedit

theorem guardedBy_createElement (a : Arena) (d : NodeId) (name : String) :
    (createElement d name).GuardedBy a (a.expectDocument d) := by
  cases hd : a.expectDocument d with
  | ok _ => exact ⟨_, _, run_createElement hd name⟩
  | error e => simp [GuardedBy, createElement, hd]

theorem guardedBy_createComment (a : Arena) (d : NodeId) (text : String) :
    (createComment d text).GuardedBy a (a.expectDocument d) := by
  cases hd : a.expectDocument d with
  | ok _ => exact ⟨_, _, run_createComment hd text⟩
  | error e => simp [GuardedBy, createComment, hd]

theorem guardedBy_updateAttributes (a : Arena) (x : NodeId) (f : Attributes → Attributes) :
    (updateAttributes x f).GuardedBy a (a.element x) := by
  cases hx : a.element x with
  | ok t =>
    obtain ⟨n, hn, hdata⟩ := Arena.element_eq_ok_iff.1 hx
    exact ⟨_, _, run_updateAttributes hn hdata f⟩
  | error e => simp [GuardedBy, updateAttributes, hx]

theorem guardedBy_setCommentText (a : Arena) (x : NodeId) (text : String) :
    (setCommentText x text).GuardedBy a (a.commentText x) := by
  cases hx : a.commentText x with
  | ok t =>
    obtain ⟨n, hn, hdata⟩ := Arena.commentText_eq_ok_iff.1 hx
    exact ⟨_, _, run_setCommentText hn hdata text⟩
  | error e => simp [GuardedBy, setCommentText, hx]

theorem guardedBy_rename (a : Arena) (x : NodeId) (name : String) :
    (rename x name).GuardedBy a (a.get x) := by
  cases hx : a.get x with
  | ok n =>
    have hn := Arena.get_eq_ok_iff.1 hx
    cases ht : n.element? with
    | none => exact ⟨false, a, by simp [rename, hx, ht]⟩
    | some t => exact ⟨_, _, run_rename hn (Arena.element?_eq_some_iff.1 ht) name⟩
  | error e => simp [GuardedBy, rename, hx]

theorem guardedBy_insertBefore (h : a.WellFormed) (p x : NodeId) (child : Option NodeId) :
    (insertBefore p x child).GuardedBy a (a.checkInsertion p x child) := by
  cases hcheck : a.checkInsertion p x child with
  | ok _ =>
    obtain ⟨m, n, hpx, hc, hs⟩ := (Arena.checkInsertion_eq_ok_iff h.toForest).1 hcheck
    obtain ⟨d, -, hd, -⟩ := h.document_live hpx.parent
    obtain ⟨ref, hr⟩ := h.reference_eq_ok hpx.node child
    exact ⟨_, _, run_insertBefore h hpx hs hc hr hd⟩
  | error e => simp [GuardedBy, insertBefore, hcheck]

theorem guardedBy_replaceChild (h : a.WellFormed) (p x c : NodeId) :
    (replaceChild p x c).GuardedBy a (a.checkReplacement p x c) := by
  cases hcheck : a.checkReplacement p x c with
  | ok _ =>
    by_cases hxc : x = c
    · subst hxc
      exact ⟨x, a, by simp [replaceChild, hcheck]⟩
    · obtain ⟨m, n, hpx, hc, hs⟩ := (Arena.checkReplacement_eq_ok_iff h).1 hcheck
      obtain ⟨d, -, hd, -⟩ := h.document_live hpx.parent
      exact ⟨_, _, run_replaceChild h hpx hc hs hd hxc⟩
  | error e => simp [GuardedBy, replaceChild, hcheck]

theorem guardedBy_removeChild (h : a.WellFormed) (p c : NodeId) :
    (removeChild p c).GuardedBy a (do
      let _ ← a.get p
      a.checkChild p c) := by
  cases hp : a.get p with
  | ok m =>
    rw [ok_bind]
    cases hc : a.checkChild p c with
    | ok _ => exact ⟨_, _, run_removeChild h (Arena.checkChild_eq_ok_iff.1 hc)⟩
    | error e => simp [GuardedBy, removeChild, hp, hc]
  | error e => simp [GuardedBy, removeChild, hp]

theorem guardedBy_append (h : a.WellFormed) (p : NodeId) (xs : List NodeId) :
    (append p xs).GuardedBy a (a.checkAll p xs false) := by
  cases hcheck : a.checkAll p xs false with
  | ok _ =>
    obtain ⟨b, hb, -⟩ := run_append h hcheck
    exact ⟨_, _, hb⟩
  | error e => simp [GuardedBy, append, hcheck]

theorem guardedBy_prepend (h : a.WellFormed) (p : NodeId) (xs : List NodeId) :
    (prepend p xs).GuardedBy a (a.checkAll p xs false) := by
  cases hcheck : a.checkAll p xs false with
  | ok _ =>
    obtain ⟨m, b, -, hb, -⟩ := run_prepend h hcheck
    exact ⟨_, _, hb⟩
  | error e => simp [GuardedBy, prepend, hcheck]

theorem guardedBy_replaceChildren (h : a.WellFormed) (p : NodeId) (xs : List NodeId) :
    (replaceChildren p xs).GuardedBy a (a.checkAll p xs true) := by
  cases hcheck : a.checkAll p xs true with
  | ok _ =>
    obtain ⟨m, b, -, hb, -⟩ := run_replaceChildren h hcheck
    exact ⟨_, _, hb⟩
  | error e => simp [GuardedBy, replaceChildren, hcheck]

theorem guardedBy_clone (h : a.WellFormed) (x : NodeId) (deep : Bool) :
    (clone x deep).GuardedBy a (a.get x) := by
  cases hx : a.get x with
  | ok n =>
    have hn := Arena.get_eq_ok_iff.1 hx
    cases deep with
    | false => exact ⟨_, _, run_clone_shallow hn⟩
    | true =>
      obtain ⟨b, hrun, -⟩ := run_clone_deep h hn
      exact ⟨_, _, hrun⟩
  | error e => simp [GuardedBy, clone, copy, hx]

theorem failsDueTo_adopt (h : a.Forest) (hd : a.Known given d) (hx : a.Known given x) :
    (adopt d x).FailsDueTo a given := by
  have hcheck := Yields.expectDocument hd
  cases hdoc : a.expectDocument d with
  | error e =>
    rw [hdoc] at hcheck
    exact failsDueTo_of_error (e := e) (b := a) (by simp [adopt, hdoc]) hcheck
  | ok _ =>
    have hget := Yields.get hx
    cases hn : a.get x with
    | error e =>
      rw [hn] at hget
      exact failsDueTo_of_error (e := e) (b := a) (by simp [adopt, hdoc, hn]) hget
    | ok n =>
      cases hk : n.isDocument with
      | true =>
        exact failsDueTo_of_error (e := .adoptsDocument) (b := a)
          (by simp [adopt, hdoc, hn, hk]) trivial
      | false => exact failsDueTo_of_ok (run_adopt h hdoc (Arena.get_eq_ok_iff.1 hn) hk)

theorem failsDueTo_release (h : a.Forest) (hx : a.Known given x) :
    (release x).FailsDueTo a given := by
  have hget := Yields.get hx
  cases hn : a.get x with
  | error e =>
    rw [hn] at hget
    exact failsDueTo_of_error (e := e) (b := a) (by simp [release, hn]) hget
  | ok n =>
    have hlive := Arena.get_eq_ok_iff.1 hn
    by_cases ho : Releasable a x n
    · exact failsDueTo_of_ok (run_release h hlive ho)
    · obtain ⟨e, hrun, rfl | rfl⟩ := run_release_refused h hlive ho
      · exact failsDueTo_of_error hrun trivial
      · exact failsDueTo_of_error hrun trivial

end Edit

end DocTree
