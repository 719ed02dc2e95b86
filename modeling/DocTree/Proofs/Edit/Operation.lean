import DocTree.Proofs.Edit.Bulk
import DocTree.Proofs.Edit.Cloning
import Mathlib.Algebra.Group.Nat.Defs

namespace DocTree

inductive Operation
  | createDocument
  | createElement (document : NodeId) (name : String)
  | createComment (document : NodeId) (text : String)
  | setAttribute (x : NodeId) (name : String) (value : Value)
  | removeAttribute (x : NodeId) (name : String)
  | setCommentText (x : NodeId) (text : String)
  | rename (x : NodeId) (name : String)
  | adopt (document x : NodeId)
  | release (x : NodeId)
  | insertBefore (parent node : NodeId) (child : Option NodeId)
  | appendChild (parent node : NodeId)
  | replaceChild (parent node child : NodeId)
  | removeChild (parent child : NodeId)
  | prepend (parent : NodeId) (nodes : List NodeId)
  | append (parent : NodeId) (nodes : List NodeId)
  | replaceChildren (parent : NodeId) (nodes : List NodeId)
  | clone (x : NodeId) (deep : Bool)

namespace Operation

def perform : Operation → Edit Unit
  | createDocument => discard Edit.createDocument
  | createElement d name => discard (Edit.createElement d name)
  | createComment d text => discard (Edit.createComment d text)
  | setAttribute x name value => Edit.setAttribute x name value
  | removeAttribute x name => discard (Edit.removeAttribute x name)
  | setCommentText x text => Edit.setCommentText x text
  | rename x name => discard (Edit.rename x name)
  | adopt d x => discard (Edit.adopt d x)
  | release x => discard (Edit.release x)
  | insertBefore p x child => discard (Edit.insertBefore p x child)
  | appendChild p x => discard (Edit.appendChild p x)
  | replaceChild p x c => discard (Edit.replaceChild p x c)
  | removeChild p c => discard (Edit.removeChild p c)
  | prepend p xs => Edit.prepend p xs
  | append p xs => Edit.append p xs
  | replaceChildren p xs => Edit.replaceChildren p xs
  | clone x deep => discard (Edit.clone x deep)

def step (a : Arena) (op : Operation) : Arena :=
  match op.perform.run a with
  | .ok _ b => b
  | .error _ b => b

def run (ops : List Operation) (a : Arena) : Arena := ops.foldl step a

variable {a b : Arena} {op : Operation} {ops : List Operation} {e : Error}

def AdoptsRoot (a : Arena) : Operation → Prop
  | adopt _ x => ∀ n, a.find? x = some n → n.parent = none
  | _ => True

theorem stepwise_discard {edit : Edit α} (h : edit.Stepwise a) :
    (discard edit : Edit Unit).Stepwise a :=
  h.map _

theorem stepwise_perform (h : a.WellFormed) (hroot : op.AdoptsRoot a) : op.perform.Stepwise a := by
  cases op with
  | createDocument => exact stepwise_discard (Edit.stepwise_createDocument a)
  | createElement d name => exact stepwise_discard (Edit.stepwise_createElement a d name)
  | createComment d text => exact stepwise_discard (Edit.stepwise_createComment a d text)
  | setAttribute x name value => exact Edit.stepwise_setAttribute a x name value
  | removeAttribute x name => exact stepwise_discard (Edit.stepwise_removeAttribute a x name)
  | setCommentText x text => exact Edit.stepwise_setCommentText a x text
  | rename x name => exact stepwise_discard (Edit.stepwise_rename a x name)
  | adopt d x => exact stepwise_discard (Edit.stepwise_adopt h.toForest d hroot)
  | release x => exact stepwise_discard (Edit.stepwise_release h.toForest x)
  | insertBefore p x child => exact stepwise_discard (Edit.stepwise_insertBefore h p x child)
  | appendChild p x => exact stepwise_discard (Edit.stepwise_insertBefore h p x none)
  | replaceChild p x c => exact stepwise_discard (Edit.stepwise_replaceChild h p x c)
  | removeChild p c => exact stepwise_discard (Edit.stepwise_removeChild h p c)
  | prepend p xs => exact Edit.stepwise_prepend h p xs
  | append p xs => exact Edit.stepwise_append h p xs
  | replaceChildren p xs => exact Edit.stepwise_replaceChildren h p xs
  | clone x deep => exact stepwise_discard (Edit.stepwise_clone h x deep)

theorem changes_step (h : a.WellFormed) (hroot : op.AdoptsRoot a) : a.Changes (step a op) := by
  have hperform := stepwise_perform h hroot
  rw [Edit.Stepwise] at hperform
  rw [step]
  cases hrun : op.perform.run a with
  | ok _ b =>
    rw [hrun] at hperform
    exact hperform
  | error _ b =>
    rw [hrun] at hperform
    obtain rfl : b = a := hperform
    exact .refl

theorem atomic_perform (h : a.WellFormed) (op : Operation) : op.perform.Atomic a := by
  by_cases hroot : op.AdoptsRoot a
  · exact (stepwise_perform h hroot).atomic h
  · cases op with
    | adopt d x => exact (Edit.atomic_adopt h d x).map _
    | _ => exact absurd trivial hroot

theorem wellFormed_step (h : a.WellFormed) (op : Operation) : (step a op).WellFormed := by
  have hatomic := atomic_perform h op
  rw [Edit.Atomic] at hatomic
  rw [step]
  split at hatomic <;> simp_all

theorem wellFormed_run (h : a.WellFormed) (ops : List Operation) : (run ops a).WellFormed := by
  induction ops generalizing a with
  | nil => exact h
  | cons op ops ih => exact ih (wellFormed_step h op)

theorem forest_run (ops : List Operation) : (run ops .empty).Forest :=
  (wellFormed_run Arena.wellFormed_empty ops).toForest

theorem eq_of_perform_error (he : op.perform.run (run ops .empty) = .error e b) :
    b = run ops .empty := by
  have hatomic := atomic_perform (wellFormed_run Arena.wellFormed_empty ops) op
  rwa [Edit.Atomic, he] at hatomic

theorem append_refused : ∃ e b,
    (append 0 [1, 2]).perform.run
        (run [createDocument, createElement 0 "a", createElement 0 "b"] .empty) = .error e b ∧
      b = run [createDocument, createElement 0 "a", createElement 0 "b"] .empty := by
  have he : (append 0 [1, 2]).perform.run
      (run [createDocument, createElement 0 "a", createElement 0 "b"] .empty) =
        .error .manyElements
          (run [createDocument, createElement 0 "a", createElement 0 "b"] .empty) := rfl
  exact ⟨_, _, he, eq_of_perform_error he⟩

end Operation

/-- A run of edits leads to the arena.  Numbers have 32 bits, so it holds no more nodes. -/
structure Arena.Reachable (a : Arena) : Prop where
  run : ∃ ops, Operation.run ops .empty = a
  numbered : a.nextId ≤ 2 ^ 32

theorem Arena.Reachable.wellFormed {a : Arena} (h : a.Reachable) : a.WellFormed := by
  obtain ⟨ops, rfl⟩ := h.run
  exact Operation.wellFormed_run Arena.wellFormed_empty ops

theorem Arena.Reachable.step {a : Arena} {op : Operation} (h : a.Reachable)
    (hle : (Operation.step a op).nextId ≤ 2 ^ 32) : (Operation.step a op).Reachable := by
  obtain ⟨ops, rfl⟩ := h.run
  exact ⟨⟨ops ++ [op], List.foldl_concat ..⟩, hle⟩

end DocTree
