import DocTree.Proofs.Failure.Edits
import DocTree.Proofs.Failure.Queries

namespace DocTree

inductive Inspection
  | node (x : NodeId)
  | kind (x : NodeId)
  | ownerDocument (x : NodeId)
  | nodeDocument (x : NodeId)
  | root (x : NodeId)
  | isConnected (x : NodeId)
  | parent (x : NodeId)
  | parentElement (x : NodeId)
  | childNodes (x : NodeId)
  | hasChildNodes (x : NodeId)
  | firstChild (x : NodeId)
  | lastChild (x : NodeId)
  | previousSibling (x : NodeId)
  | nextSibling (x : NodeId)
  | children (x : NodeId)
  | childElementCount (x : NodeId)
  | firstChildElement (x : NodeId)
  | lastChildElement (x : NodeId)
  | previousElementSibling (x : NodeId)
  | nextElementSibling (x : NodeId)
  | documentElement (x : NodeId)
  | contains (x other : NodeId)
  | isEqual (x y : NodeId)
  | descendants (x : NodeId)
  | localName (x : NodeId)
  | attributes (x : NodeId)
  | getAttribute (x : NodeId) (name : String)
  | hasAttribute (x : NodeId) (name : String)
  | attributeNames (x : NodeId)
  | commentText (x : NodeId)
  | elementsByClass (x : NodeId) (names : String)
  | query (x : NodeId) (l : SelectorList)
  | queryAll (x : NodeId) (l : SelectorList)
  | isSelected (x : NodeId) (l : SelectorList)
  | serialize (f : Markup.Format) (x : NodeId)
  | path (x : NodeId)

namespace Inspection

def perform (a : Arena) : Inspection → Except Error Unit
  | node x => discard (a.get x)
  | kind x => discard (a.kind x)
  | ownerDocument x => discard (a.ownerDocument x)
  | nodeDocument x => discard (a.nodeDocument x)
  | root x => discard (a.root x)
  | isConnected x => discard (a.isConnected x)
  | parent x => discard (a.parent x)
  | parentElement x => discard (a.parentElement x)
  | childNodes x => discard (a.childNodes x)
  | hasChildNodes x => discard (a.hasChildNodes x)
  | firstChild x => discard (a.firstChild x)
  | lastChild x => discard (a.lastChild x)
  | previousSibling x => discard (a.previousSibling x)
  | nextSibling x => discard (a.nextSibling x)
  | children x => discard (a.children x)
  | childElementCount x => discard (a.childElementCount x)
  | firstChildElement x => discard (a.firstChildElement x)
  | lastChildElement x => discard (a.lastChildElement x)
  | previousElementSibling x => discard (a.previousElementSibling x)
  | nextElementSibling x => discard (a.nextElementSibling x)
  | documentElement x => discard (a.documentElement x)
  | contains x other => discard (a.contains x other)
  | isEqual x y => discard (a.isEqual x y)
  | descendants x => discard (a.descendants x)
  | localName x => discard (a.localName x)
  | attributes x => discard (a.attributes x)
  | getAttribute x name => discard (a.getAttribute x name)
  | hasAttribute x name => discard (a.hasAttribute x name)
  | attributeNames x => discard (a.attributeNames x)
  | commentText x => discard (a.commentText x)
  | elementsByClass x names => discard (a.elementsByClass x names)
  | query x l => discard (a.query x l)
  | queryAll x l => discard (a.queryAll x l)
  | isSelected x l => discard (a.isSelected x l)
  | serialize f x => discard (f.serialize a x)
  | path x => discard (Markup.path a x)

def ids : Inspection → List NodeId
  | contains x other => [x, other]
  | isEqual x y => [x, y]
  | node x | kind x | ownerDocument x | nodeDocument x | root x | isConnected x | parent x
  | parentElement x | childNodes x | hasChildNodes x | firstChild x | lastChild x
  | previousSibling x | nextSibling x | children x | childElementCount x | firstChildElement x
  | lastChildElement x | previousElementSibling x | nextElementSibling x | documentElement x
  | descendants x | localName x | attributes x | getAttribute x _ | hasAttribute x _
  | attributeNames x | commentText x | elementsByClass x _ | query x _ | queryAll x _
  | isSelected x _ | serialize _ x | path x => [x]

variable {a : Arena}

theorem failsDueTo_ids (h : a.Forest) (r : Inspection) : FailsDueTo a r.ids (r.perform a) := by
  have known : ∀ {x}, x ∈ r.ids → a.Known r.ids x := .inl
  cases r with
  | node x => exact .discard (.get (known (.head _)))
  | kind x | ownerDocument x | nodeDocument x =>
    exact .discard (Yields.get (known (.head _))).andReturn
  | root x => exact .discard (Yields.root h (known (.head _)))
  | isConnected x => exact .discard (Yields.isConnected h (known (.head _)))
  | parent x => exact .discard (Yields.parent h (known (.head _)))
  | parentElement x => exact .discard (Yields.parentElement h (known (.head _)))
  | childNodes x => exact .discard (Yields.childNodes h (known (.head _)))
  | hasChildNodes x | firstChild x | lastChild x =>
    exact .discard (Yields.childNodes h (known (.head _))).andReturn
  | previousSibling x | nextSibling x =>
    exact .discard (Yields.around h (known (.head _))).andReturn
  | children x => exact .discard (Yields.children h (known (.head _)))
  | childElementCount x => exact .discard (Yields.childElementCount h (known (.head _)))
  | firstChildElement x => exact .discard (Yields.firstChildElement h (known (.head _)))
  | lastChildElement x => exact .discard (Yields.lastChildElement h (known (.head _)))
  | previousElementSibling x => exact .discard (Yields.previousElementSibling h (known (.head _)))
  | nextElementSibling x => exact .discard (Yields.nextElementSibling h (known (.head _)))
  | documentElement x =>
    exact .discard ((Yields.expectDocument (known (.head _))).bind fun _ _ =>
      Yields.firstChildElement h (known (.head _)))
  | contains x other =>
    exact .discard (Yields.contains h (known (.head _)) (known (.tail _ (.head _))))
  | isEqual x y =>
    exact .discard (Yields.isEqual h (known (.head _)) (known (.tail _ (.head _))))
  | descendants x => exact .discard (Yields.descendants h (known (.head _)))
  | localName x => exact .discard (Yields.localName (known (.head _)))
  | attributes x => exact .discard (Yields.attributes (known (.head _)))
  | getAttribute x name | hasAttribute x name | attributeNames x =>
    exact .discard (Yields.attributes (known (.head _))).andReturn
  | commentText x => exact .discard (Yields.commentText (known (.head _)))
  | elementsByClass x names => exact .discard (Yields.elementsByClass h (known (.head _)) names)
  | query x l => exact .discard (Yields.query h (known (.head _)) l)
  | queryAll x l => exact .discard (Yields.queryAll h (known (.head _)) l)
  | isSelected x l => exact .discard (Yields.isSelected h (known (.head _)) l)
  | serialize f x => exact .discard (Yields.serialize h f (known (.head _)))
  | path x => exact .discard (Yields.path h (known (.head _)))

end Inspection

namespace Operation

def ids : Operation → List NodeId
  | createDocument => []
  | createElement d _ | createComment d _ => [d]
  | setAttribute x _ _ | removeAttribute x _ | setCommentText x _ | rename x _ => [x]
  | adopt d x => [d, x]
  | release x | clone x _ => [x]
  | insertBefore p x child => p :: x :: child.toList
  | appendChild p x => [p, x]
  | replaceChild p x c => [p, x, c]
  | removeChild p c => [p, c]
  | prepend p xs | append p xs | replaceChildren p xs => p :: xs

variable {a : Arena}

theorem failsDueTo_ids (h : a.WellFormed) (op : Operation) :
    op.perform.FailsDueTo a op.ids := by
  have known : ∀ {x}, x ∈ op.ids → a.Known op.ids x := .inl
  have hforest := h.toForest
  cases op with
  | createDocument => exact (Edit.failsDueTo_of_ok (Edit.run_create a none .document)).map _
  | createElement d name =>
    exact ((Edit.guardedBy_createElement a d name).failsDueTo
      (Yields.expectDocument (known (.head _)))).map _
  | createComment d text =>
    exact ((Edit.guardedBy_createComment a d text).failsDueTo
      (Yields.expectDocument (known (.head _)))).map _
  | setAttribute x name value =>
    exact ((Edit.guardedBy_updateAttributes a x _).failsDueTo
      (Yields.element (known (.head _)))).map _
  | removeAttribute x name =>
    exact (((Edit.guardedBy_updateAttributes a x _).failsDueTo
      (Yields.element (known (.head _)))).map _).map _
  | setCommentText x text =>
    exact (Edit.guardedBy_setCommentText a x text).failsDueTo
      (Yields.commentText (known (.head _)))
  | rename x name =>
    exact ((Edit.guardedBy_rename a x name).failsDueTo (Yields.get (known (.head _)))).map _
  | adopt d x =>
    exact (Edit.failsDueTo_adopt hforest (known (.head _)) (known (.tail _ (.head _)))).map _
  | release x => exact (Edit.failsDueTo_release hforest (known (.head _))).map _
  | insertBefore p x child =>
    have hchild : ∀ c ∈ child, a.Known (p :: x :: child.toList) c := fun c hc =>
      known (.tail _ (.tail _ (Option.mem_toList.2 hc)))
    exact ((Edit.guardedBy_insertBefore h p x child).failsDueTo
      (Yields.checkInsertion hforest (known (.head _)) (known (.tail _ (.head _))) hchild)).map _
  | appendChild p x =>
    exact ((Edit.guardedBy_insertBefore h p x none).failsDueTo
      (Yields.checkInsertion hforest (known (.head _)) (known (.tail _ (.head _))) nofun)).map _
  | replaceChild p x c =>
    exact ((Edit.guardedBy_replaceChild h p x c).failsDueTo
      (Yields.checkReplacement hforest (known (.head _)) (known (.tail _ (.head _)))
        (known (.tail _ (.tail _ (.head _)))))).map _
  | removeChild p c =>
    exact ((Edit.guardedBy_removeChild h p c).failsDueTo
      ((Yields.get (known (.head _))).bind fun _ _ =>
        Yields.checkChild (known (.tail _ (.head _))))).map _
  | prepend p xs =>
    exact (Edit.guardedBy_prepend h p xs).failsDueTo
      (Yields.checkAll hforest (known (.head _)) (fun _ hx => known (.tail _ hx)) false)
  | append p xs =>
    exact (Edit.guardedBy_append h p xs).failsDueTo
      (Yields.checkAll hforest (known (.head _)) (fun _ hx => known (.tail _ hx)) false)
  | replaceChildren p xs =>
    exact (Edit.guardedBy_replaceChildren h p xs).failsDueTo
      (Yields.checkAll hforest (known (.head _)) (fun _ hx => known (.tail _ hx)) true)
  | clone x deep =>
    exact ((Edit.guardedBy_clone h x deep).failsDueTo (Yields.get (known (.head _)))).map _

end Operation

namespace Arena

variable {a : Arena}

structure NeverDangles (a : Arena) : Prop where
  reads : ∀ r : Inspection, FailsDueTo a r.ids (r.perform a)
  /-- A visitor may fail by itself. -/
  walks : ∀ (σ : Type) (x : NodeId) (visit : Node → EStateM Error σ Unit),
    RunYields (fun e => e.DueTo a [x] ∨
      ∃ y n s t, a.find? y = some n ∧ (visit n).run s = .error e t) (fun _ => True)
      (a.traverse x visit)
  matching : ∀ (l : SelectorList) (x : NodeId), RunFailsDueTo a [x] (l.selects a x)
  edits : ∀ op : Operation, op.perform.FailsDueTo a op.ids
  replacements : ∀ p x c e b, (Edit.replaceChild p x c).run a = .error e b →
    a.checkReplacement p x c = .error e

/-- In an arena that a run of edits leads to, only numbers of the caller's are found missing. -/
theorem Reachable.neverDangles (h : a.Reachable) : a.NeverDangles where
  reads := Inspection.failsDueTo_ids h.wellFormed.toForest
  walks _ _ visit := Yields.traverse h.wellFormed.toForest (.inl (.head _)) visit
  matching l _ := RunYields.listSelects h.wellFormed.toForest l (.inl (.head _))
  edits := Operation.failsDueTo_ids h.wellFormed
  replacements p x c _ _ hrun := (Edit.guardedBy_replaceChild h.wellFormed p x c).check_eq hrun

theorem neverDangles_release :
    (Operation.run [.createDocument, .createElement 0 "a", .release 1] .empty).Reachable ∧
      (1 ∈ [0, 1] ∧ (Operation.run [.createDocument, .createElement 0 "a", .release 1]
        .empty).find? 1 = none) := by
  have h : (Operation.run [.createDocument, .createElement 0 "a", .release 1] .empty).Reachable :=
    ⟨⟨_, rfl⟩, by decide⟩
  have hrun : (Operation.appendChild 0 1).perform.run
      (Operation.run [.createDocument, .createElement 0 "a", .release 1] .empty) =
        .error (.unknownNode 1)
          (Operation.run [.createDocument, .createElement 0 "a", .release 1] .empty) := rfl
  exact ⟨h, h.neverDangles.edits (.appendChild 0 1) _ _ hrun⟩

end Arena

end DocTree
