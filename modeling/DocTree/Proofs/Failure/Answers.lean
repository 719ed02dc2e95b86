import DocTree.Proofs.Edit.Reached
import DocTree.Proofs.Failure.Dangling

namespace DocTree

def Node.numbers (n : Node) : List NodeId := n.id :: n.parent.toList ++ n.children ++ n.owner.toList

namespace Inspection

def answer (a : Arena) : Inspection → Except Error (List NodeId)
  | node x => return (← a.get x).numbers
  | ownerDocument x => return (← a.ownerDocument x).toList
  | nodeDocument x => return (← a.nodeDocument x).toList
  | root x => return [← a.root x]
  | parent x => return (← a.parent x).toList
  | parentElement x => return (← a.parentElement x).toList
  | childNodes x => a.childNodes x
  | firstChild x => return (← a.firstChild x).toList
  | lastChild x => return (← a.lastChild x).toList
  | previousSibling x => return (← a.previousSibling x).toList
  | nextSibling x => return (← a.nextSibling x).toList
  | children x => a.children x
  | firstChildElement x => return (← a.firstChildElement x).toList
  | lastChildElement x => return (← a.lastChildElement x).toList
  | previousElementSibling x => return (← a.previousElementSibling x).toList
  | nextElementSibling x => return (← a.nextElementSibling x).toList
  | documentElement x => return (← a.documentElement x).toList
  | descendants x => a.descendants x
  | elementsByClass x names => a.elementsByClass x names
  | query x l => return (← a.query x l).toList
  | queryAll x l => a.queryAll x l
  | r => do
    r.perform a
    return []

end Inspection

namespace Operation

def result : Operation → Edit (List NodeId)
  | createDocument => return [← Edit.createDocument]
  | createElement d name => return [← Edit.createElement d name]
  | createComment d text => return [← Edit.createComment d text]
  | adopt d x => return [← Edit.adopt d x]
  | insertBefore p x child => return [← Edit.insertBefore p x child]
  | appendChild p x => return [← Edit.appendChild p x]
  | replaceChild p x c => return [← Edit.replaceChild p x c]
  | removeChild p c => return [← Edit.removeChild p c]
  | clone x deep => return [← Edit.clone x deep]
  | op => do
    op.perform
    return []

end Operation

open Arena (AllLive Known)

variable {a b : Arena} {given : List NodeId} {x y p c d : NodeId} {n m : Node} {ys : List NodeId}

namespace Node

theorem ownerDocument_mem_numbers : ∀ y ∈ n.ownerDocument, y ∈ n.numbers := by
  intro y hy
  rw [ownerDocument] at hy
  split at hy
  · cases hy
  · exact List.mem_append_right _ (Option.mem_toList.2 hy)

theorem document_mem_numbers : ∀ y ∈ n.document, y ∈ n.numbers := by
  intro y hy
  rw [document] at hy
  split at hy
  · exact Option.some.inj hy ▸ List.mem_cons_self
  · exact List.mem_append_right _ (Option.mem_toList.2 hy)

end Node

theorem Arena.WellFormed.allLive_numbers (h : a.WellFormed) (hx : a.find? x = some n) :
    a.AllLive n.numbers := by
  intro y hy
  simp only [Node.numbers, List.mem_append, List.mem_cons, Option.mem_toList] at hy
  obtain ((rfl | hy) | hy) | hy := hy
  · exact ⟨n, (h.id_eq hx).symm ▸ hx⟩
  · exact h.live_of_mem_parent hx y hy
  · exact h.child_live hx y hy
  · cases hn : n.isDocument with
    | true => cases (h.document_owner hx hn).symm.trans hy
    | false =>
      obtain ⟨d, m, ho, hm, -⟩ := h.owner_live hx hn
      obtain rfl := Option.some.inj (ho.symm.trans hy)
      exact ⟨m, hm⟩

namespace Yields

variable {E : Error → Prop}

theorem listed {m : Except Error (Option NodeId)}
    (hm : Yields E (fun o => ∀ y ∈ o, ∃ n, a.find? y = some n) m) :
    Yields E (AllLive a) (do return (← m).toList) :=
  hm.bind fun _ ho => .ok fun y hy => ho y (Option.mem_toList.1 hy)

theorem answer (h : a.WellFormed) (r : Inspection) :
    Yields (Error.DueTo a r.ids) (AllLive a) (r.answer a) := by
  have hforest := h.toForest
  have known : ∀ {x}, x ∈ r.ids → a.Known r.ids x := .inl
  cases r with
  | node x =>
    exact (Yields.get (known (.head _))).bind fun n hn => .ok (h.allLive_numbers hn)
  | ownerDocument x =>
    exact listed ((Yields.get (known (.head _))).bind fun n hn =>
      .ok fun y hy => h.allLive_numbers hn y (n.ownerDocument_mem_numbers y hy))
  | nodeDocument x =>
    exact listed ((Yields.get (known (.head _))).bind fun n hn =>
      .ok fun y hy => h.allLive_numbers hn y (n.document_mem_numbers y hy))
  | root x =>
    exact (root hforest (known (.head _))).bind fun y hy =>
      .ok fun z hz => List.mem_singleton.1 hz ▸ hy
  | parent x => exact listed (parent hforest (known (.head _)))
  | parentElement x => exact listed (parentElement hforest (known (.head _)))
  | childNodes x => exact childNodes hforest (known (.head _))
  | firstChild x =>
    exact listed ((childNodes hforest (known (.head _))).bind fun ys hys => .ok hys.head?)
  | lastChild x =>
    exact listed ((childNodes hforest (known (.head _))).bind fun ys hys => .ok hys.getLast?)
  | previousSibling x =>
    exact listed ((around hforest (known (.head _))).bind fun r hr => .ok hr.1.head?)
  | nextSibling x =>
    exact listed ((around hforest (known (.head _))).bind fun r hr => .ok hr.2.head?)
  | children x => exact children hforest (known (.head _))
  | firstChildElement x => exact listed (firstChildElement hforest (known (.head _)))
  | lastChildElement x => exact listed (lastChildElement hforest (known (.head _)))
  | previousElementSibling x =>
    exact listed ((earlierElements hforest (known (.head _))).bind fun ys hys => .ok hys.head?)
  | nextElementSibling x =>
    exact listed ((laterElements hforest (known (.head _))).bind fun ys hys => .ok hys.head?)
  | documentElement x =>
    exact listed ((expectDocument (known (.head _))).bind fun _ _ =>
      firstChildElement hforest (known (.head _)))
  | descendants x => exact descendants hforest (known (.head _))
  | elementsByClass x names => exact elementsByClass hforest (known (.head _)) names
  | query x l => exact listed (query hforest (known (.head _)) l)
  | queryAll x l => exact queryAll hforest (known (.head _)) l
  | _ => exact (Inspection.failsDueTo_ids hforest _).bind fun _ _ => .ok nofun

end Yields

theorem Inspection.allLive_answer (h : a.WellFormed) {r : Inspection} (hr : r.answer a = .ok ys) :
    a.AllLive ys := by
  have hanswer := Yields.answer h r
  rwa [hr] at hanswer

namespace Edit

variable {edit : Edit NodeId} {e : Error} {v : NodeId}

def Names (edit : Edit NodeId) (a : Arena) : Prop :=
  ∀ v b, edit.run a = .ok v b → (∃ n, a.find? v = some n) ∨ v = a.nextId

theorem names_of_ok (h : edit.run a = .ok v b) (hv : (∃ n, a.find? v = some n) ∨ v = a.nextId) :
    edit.Names a := by
  intro w c hrun
  cases h.symm.trans hrun
  exact hv

theorem names_of_error (h : edit.run a = .error e b) : edit.Names a := by
  intro w c hrun
  cases h.symm.trans hrun

theorem names_create (a : Arena) (d : NodeId) (data : NodeData) :
    Names (do (← get).expectDocument d; create (some d) data) a := by
  cases hd : a.expectDocument d with
  | error e => exact names_of_error (e := e) (b := a) (by simp [hd])
  | ok _ =>
    exact names_of_ok (b := a.push (some d) data) (by simp [hd, run_create]) (.inr rfl)

theorem names_clone (h : a.WellFormed) (x : NodeId) (deep : Bool) : (clone x deep).Names a := by
  cases hx : a.get x with
  | error e => exact names_of_error (e := e) (b := a) (by simp [clone, copy, hx])
  | ok n =>
    have hn := Arena.get_eq_ok_iff.1 hx
    cases deep with
    | false => exact names_of_ok (run_clone_shallow hn) (.inr rfl)
    | true =>
      obtain ⟨b, hrun, -⟩ := run_clone_deep h hn
      exact names_of_ok hrun (.inr rfl)

theorem names_adopt (h : a.Forest) (d x : NodeId) : (adopt d x).Names a := by
  obtain ⟨e, hrun⟩ | ⟨n, m, hx, -, -, -, hrun⟩ := run_adopt_cases h d x
  · exact names_of_error hrun
  · exact names_of_ok hrun (.inl ⟨n, hx⟩)

theorem names_insertBefore (h : a.WellFormed) (p x : NodeId) (child : Option NodeId) :
    (insertBefore p x child).Names a := by
  cases hcheck : a.checkInsertion p x child with
  | error e => exact names_of_error (e := e) (b := a) (by simp [insertBefore, hcheck])
  | ok _ =>
    obtain ⟨m, n, hpx, hc, hs⟩ := (Arena.checkInsertion_eq_ok_iff h.toForest).1 hcheck
    obtain ⟨d, -, hd, -⟩ := h.document_live hpx.parent
    obtain ⟨ref, hr⟩ := h.reference_eq_ok hpx.node child
    exact names_of_ok (run_insertBefore h hpx hs hc hr hd) (.inl ⟨n, hpx.node⟩)

theorem names_replaceChild (h : a.WellFormed) (p x c : NodeId) : (replaceChild p x c).Names a := by
  cases hcheck : a.checkReplacement p x c with
  | error e => exact names_of_error (e := e) (b := a) (by simp [replaceChild, hcheck])
  | ok _ =>
    obtain ⟨m, n, hpx, hc, hs⟩ := (Arena.checkReplacement_eq_ok_iff h).1 hcheck
    by_cases hxc : x = c
    · subst hxc
      exact names_of_ok (v := x) (b := a) (by simp [replaceChild, hcheck]) (.inl ⟨n, hpx.node⟩)
    · obtain ⟨d, -, hd, -⟩ := h.document_live hpx.parent
      exact names_of_ok (run_replaceChild h hpx hc hs hd hxc) (.inl ⟨n, hpx.node⟩)

theorem names_removeChild (h : a.WellFormed) (p c : NodeId) : (removeChild p c).Names a := by
  cases hp : a.get p with
  | error e => exact names_of_error (e := e) (b := a) (by simp [removeChild, hp])
  | ok m =>
    cases hc : a.checkChild p c with
    | error e => exact names_of_error (e := e) (b := a) (by simp [removeChild, hp, hc])
    | ok _ =>
      have hcp := Arena.checkChild_eq_ok_iff.1 hc
      obtain ⟨n, hn, -⟩ := id hcp
      exact names_of_ok (run_removeChild h hcp) (.inl ⟨n, hn⟩)

end Edit

namespace Operation

theorem names_result (h : a.WellFormed) {op : Operation} (hop : op.result.run a = .ok ys b) :
    ∀ y ∈ ys, (∃ n, a.find? y = some n) ∨ y = a.nextId := by
  have single : ∀ {edit : Edit NodeId}, edit.Names a →
      (do return [← edit] : Edit (List NodeId)).run a = .ok ys b →
      ∀ y ∈ ys, (∃ n, a.find? y = some n) ∨ y = a.nextId := by
    intro edit hedit hrun y hy
    obtain ⟨v, hv, rfl⟩ := exists_of_run_return hrun
    exact List.mem_singleton.1 hy ▸ hedit v b hv
  cases op with
  | createDocument =>
    exact single (Edit.names_of_ok (Edit.run_create a none .document) (.inr rfl)) hop
  | createElement d name => exact single (Edit.names_create a d (.element ⟨name, .empty⟩)) hop
  | createComment d text => exact single (Edit.names_create a d (.comment text)) hop
  | adopt d x => exact single (Edit.names_adopt h.toForest d x) hop
  | insertBefore p x child => exact single (Edit.names_insertBefore h p x child) hop
  | appendChild p x => exact single (Edit.names_insertBefore h p x none) hop
  | replaceChild p x c => exact single (Edit.names_replaceChild h p x c) hop
  | removeChild p c => exact single (Edit.names_removeChild h p c) hop
  | clone x deep => exact single (Edit.names_clone h x deep) hop
  | _ =>
    obtain ⟨-, -, rfl⟩ := exists_of_run_return (x := perform _) hop
    exact nofun

end Operation

end DocTree
