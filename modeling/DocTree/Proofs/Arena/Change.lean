import DocTree.Proofs.Arena.Linking
import Mathlib.Logic.Relation

namespace DocTree.Arena

/-- A change of an arena.  Owners change for a whole tree, and a node is put under a parent only if
both have the same document. -/
inductive Change (a : Arena) : Arena → Prop
  | push : a.MayOwn owner data → Change a (a.push owner data)
  | setData : a.find? x = some n → data.kind = n.kind →
      Change a (a.update x ({ · with data }))
  | own : a.find? x = some n → n.parent = none → n.isDocument = false → a.find? d = some m →
      m.isDocument = true → Change a (a.own (a.subtree x) d)
  | drop : a.find? x = some n → n.parent = none →
      (n.isDocument = true → ∀ y k, a.find? y = some k → k.owner = some x → y ∈ a.subtree x) →
      Change a (a.drop (a.subtree x))
  | unlinkAll (xs : List NodeId) : Change a (a.unlinkAll xs)
  | link (ref : Option NodeId) : a.Linkable p x m n → n.owner = m.document →
      Change a (a.link p x ref)

abbrev Changes : Arena → Arena → Prop := Relation.ReflTransGen Change

theorem change_unlink (a : Arena) (x : NodeId) : a.Change (a.unlink x) :=
  unlinkAll_singleton a x ▸ .unlinkAll [x]

namespace WellFormed

variable {a b : Arena} {x d : NodeId} {m n : Node} (h : a.WellFormed)
include h

theorem not_document_of_mem_subtree (hx : a.find? x = some n) (hn : n.isDocument = false) {y : NodeId}
    (hy : y ∈ a.subtree x) (hm : a.find? y = some m) : m.isDocument = false := by
  rcases (h.mem_subtree_iff hx).1 hy with rfl | hxy
  · obtain rfl := Option.eq_some_unique hx hm
    exact hn
  · exact h.not_document_of_above hxy hm

theorem own_subtree (hx : a.find? x = some n) (hn : n.isDocument = false)
    (hd : a.find? d = some m) (hdoc : m.isDocument = true) :
    (a.own (a.subtree x) d).WellFormed :=
  h.own hd hdoc fun _ hy _ hk => h.not_document_of_mem_subtree hx hn hy hk

theorem change (hab : a.Change b) : b.WellFormed := by
  cases hab with
  | push hown => exact h.push hown
  | setData hx hk => exact h.setData hx hk
  | own hx _ hn hd hdoc => exact h.own_subtree hx hn hd hdoc
  | drop hx hn howns => exact h.drop hx hn howns
  | unlinkAll xs => exact h.unlinkAll xs
  | link ref hl _ => exact h.link hl ref

theorem of_changes (hab : a.Changes b) : b.WellFormed := by
  induction hab with
  | refl => exact h
  | tail _ hbc ih => exact ih.change hbc

theorem keeps {P : Arena → Prop}
    (hchange : ∀ {a b : Arena}, a.WellFormed → P a → a.Change b → P b)
    (hab : a.Changes b) (ha : P a) : P b := by
  induction hab with
  | refl => exact ha
  | tail hab hbc ih => exact hchange (h.of_changes hab) ih hbc

end WellFormed

end DocTree.Arena
