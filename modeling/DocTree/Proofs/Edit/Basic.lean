import DocTree.Arena.Edit
import DocTree.Proofs.Arena.Change

namespace DocTree

namespace Arena

variable {a : Arena} {x d : NodeId} {n : Node} {e : Element} {s : String}

theorem expectDocument_eq_ok_iff :
    a.expectDocument d = .ok () ↔ ∃ n, a.find? d = some n ∧ n.isDocument = true := by
  simp only [expectDocument, bind_eq_ok_iff, get_eq_ok_iff]
  refine exists_congr fun n => and_congr_right fun _ => ?_
  cases n.isDocument <;> simp

theorem element?_eq_some_iff : n.element? = some e ↔ n.data = .element e := by
  cases h : n.data <;> simp [Node.element?, h]

theorem element_eq_ok_iff :
    a.element x = .ok e ↔ ∃ n, a.find? x = some n ∧ n.data = .element e := by
  simp only [element, bind_eq_ok_iff, get_eq_ok_iff]
  refine exists_congr fun n => and_congr_right fun _ => ?_
  rw [← element?_eq_some_iff]
  cases n.element? <;> simp

theorem commentText_eq_ok_iff :
    a.commentText x = .ok s ↔ ∃ n, a.find? x = some n ∧ n.data = .comment s := by
  simp only [commentText, bind_eq_ok_iff, get_eq_ok_iff]
  refine exists_congr fun n => and_congr_right fun _ => ?_
  cases h : n.data <;> simp [Node.comment?, h]

end Arena

namespace Edit

variable {α : Type} {edit : Edit α} {a b : Arena} {x d : NodeId} {n m : Node} {v : α} {e : Error}

/-- A failed edit leaves the arena as it was, and a successful one leaves it well-formed. -/
def Atomic (edit : Edit α) (a : Arena) : Prop :=
  match edit.run a with
  | .ok _ b => b.WellFormed
  | .error _ b => b = a

/-- A failed edit leaves the arena as it was, and a successful one is made of changes. -/
def Stepwise (edit : Edit α) (a : Arena) : Prop :=
  match edit.run a with
  | .ok _ b => a.Changes b
  | .error _ b => b = a

theorem stepwise_of_ok (h : edit.run a = .ok v b) (hb : a.Changes b) : edit.Stepwise a := by
  rw [Stepwise, h]
  exact hb

theorem stepwise_of_error (h : edit.run a = .error e a) : edit.Stepwise a := by
  rw [Stepwise, h]

theorem Stepwise.atomic (h : a.WellFormed) (hedit : edit.Stepwise a) : edit.Atomic a := by
  rw [Stepwise] at hedit
  rw [Atomic]
  split at hedit
  · exact h.of_changes hedit
  · exact hedit

theorem run_create (a : Arena) (owner : Option NodeId) (data : NodeData) :
    (create owner data).run a = .ok a.nextId (a.push owner data) := rfl

theorem run_createElement (hd : a.expectDocument d = .ok ()) (name : String) :
    (createElement d name).run a =
      .ok a.nextId (a.push (some d) (.element ⟨name, .empty⟩)) := by
  simp [createElement, hd, run_create]

theorem run_createComment (hd : a.expectDocument d = .ok ()) (text : String) :
    (createComment d text).run a = .ok a.nextId (a.push (some d) (.comment text)) := by
  simp [createComment, hd, run_create]

theorem stepwise_createDocument (a : Arena) : createDocument.Stepwise a :=
  stepwise_of_ok (run_create a none .document) (.single (.push rfl))

theorem stepwise_createElement (a : Arena) (d : NodeId) (name : String) :
    (createElement d name).Stepwise a := by
  cases hd : a.expectDocument d with
  | error e => exact stepwise_of_error (e := e) (by simp [createElement, hd])
  | ok _ =>
    apply stepwise_of_ok (run_createElement hd name)
    exact .single (.push ⟨by simp [NodeData.kind], Arena.expectDocument_eq_ok_iff.1 hd⟩)

theorem stepwise_createComment (a : Arena) (d : NodeId) (text : String) :
    (createComment d text).Stepwise a := by
  cases hd : a.expectDocument d with
  | error e => exact stepwise_of_error (e := e) (by simp [createComment, hd])
  | ok _ =>
    apply stepwise_of_ok (run_createComment hd text)
    exact .single (.push ⟨by simp [NodeData.kind], Arena.expectDocument_eq_ok_iff.1 hd⟩)

theorem run_update (hx : a.find? x = some n) (f : Node → Node) :
    (update x f).run a = .ok () (a.update x f) := by
  simp [update, Arena.get_eq_ok hx]

theorem run_updateAttributes {t : Element} (hx : a.find? x = some n) (hn : n.data = .element t)
    (f : Attributes → Attributes) :
    (updateAttributes x f).run a = .ok t.attributes
      (a.update x ({ · with data := .element { t with attributes := f t.attributes } })) := by
  have ht : a.element x = .ok t := Arena.element_eq_ok_iff.2 ⟨n, hx, hn⟩
  simp [updateAttributes, ht, run_update hx]

theorem run_setCommentText {s : String} (hx : a.find? x = some n) (hn : n.data = .comment s)
    (text : String) :
    (setCommentText x text).run a = .ok () (a.update x ({ · with data := .comment text })) := by
  have hs : a.commentText x = .ok s := Arena.commentText_eq_ok_iff.2 ⟨n, hx, hn⟩
  simp [setCommentText, hs, run_update hx]

theorem run_rename {t : Element} (hx : a.find? x = some n) (hn : n.data = .element t)
    (name : String) :
    (rename x name).run a =
      .ok true (a.update x ({ · with data := .element { t with name } })) := by
  simp [rename, Arena.get_eq_ok hx, Arena.element?_eq_some_iff.2 hn, run_update hx]

theorem stepwise_updateAttributes (a : Arena) (x : NodeId) (f : Attributes → Attributes) :
    (updateAttributes x f).Stepwise a := by
  cases hx : a.element x with
  | error e => exact stepwise_of_error (e := e) (by simp [updateAttributes, hx])
  | ok t =>
    obtain ⟨n, hn, hdata⟩ := Arena.element_eq_ok_iff.1 hx
    apply stepwise_of_ok (run_updateAttributes hn hdata f)
    exact .single (.setData hn (by rw [Node.kind, hdata]; rfl))

theorem Stepwise.map (h : edit.Stepwise a) (f : α → β) : (f <$> edit).Stepwise a := by
  rw [Stepwise, run_map]
  rw [Stepwise] at h
  cases hrun : edit.run a <;> simpa [hrun] using h

theorem Atomic.map (h : edit.Atomic a) (f : α → β) : (f <$> edit).Atomic a := by
  rw [Atomic, run_map]
  rw [Atomic] at h
  cases hrun : edit.run a <;> simpa [hrun] using h

theorem stepwise_setAttribute (a : Arena) (x : NodeId) (name : String) (value : Value) :
    (setAttribute x name value).Stepwise a :=
  (stepwise_updateAttributes a x (·.set name value)).map fun _ => ()

theorem stepwise_removeAttribute (a : Arena) (x : NodeId) (name : String) :
    (removeAttribute x name).Stepwise a :=
  (stepwise_updateAttributes a x (·.erase name)).map (·.get? name)

theorem stepwise_setCommentText (a : Arena) (x : NodeId) (text : String) :
    (setCommentText x text).Stepwise a := by
  cases hx : a.commentText x with
  | error e => exact stepwise_of_error (e := e) (by simp [setCommentText, hx])
  | ok s =>
    obtain ⟨n, hn, hdata⟩ := Arena.commentText_eq_ok_iff.1 hx
    apply stepwise_of_ok (run_setCommentText hn hdata text)
    exact .single (.setData hn (by rw [Node.kind, hdata]; rfl))

theorem stepwise_rename (a : Arena) (x : NodeId) (name : String) :
    (rename x name).Stepwise a := by
  cases hx : a.find? x with
  | none => exact stepwise_of_error (e := .unknownNode x) (by simp [rename, Arena.get_eq_error hx])
  | some n =>
    cases ht : n.element? with
    | none => exact stepwise_of_ok (v := false) (by simp [rename, Arena.get_eq_ok hx, ht]) .refl
    | some t =>
      have hdata := Arena.element?_eq_some_iff.1 ht
      apply stepwise_of_ok (run_rename hx hdata name)
      exact .single (.setData hx (by rw [Node.kind, hdata]; rfl))

theorem run_give {done : List NodeId} (hx : a.find? x = some n) (d : NodeId) :
    (give d x).run (a.own done d) = .ok ([], n.children.reverse) (a.own (x :: done) d) := by
  have hx' : (a.own done d).get x =
      .ok { n with owner := if x ∈ done then some d else n.owner } :=
    Arena.get_eq_ok (by rw [Arena.find?_own, hx]; rfl)
  simp [give, hx', Arena.update_own]

/-- The walk that owns the nodes it has done, with the others pending, owns them all. -/
theorem run_give_pending {xs ys : List NodeId} {fuel : Nat} (hxs : a.Preorder xs ys)
    (hfuel : ys.length ≤ fuel) (done : List NodeId) (d : NodeId) :
    (Worklist.run (give d) fuel xs).run (a.own done d) = .ok [] (a.own (ys ++ done) d) := by
  induction fuel generalizing xs ys done with
  | zero =>
    cases hxs with
    | nil => rfl
    | cons => simp at hfuel
  | succ fuel ih =>
    cases hxs with
    | nil => rfl
    | @cons x n ys xs zs hx hc hs =>
      obtain ⟨ws, hws, hperm⟩ := hc.exists_reverse
      have hlength : (ws ++ zs).length ≤ fuel := by
        have hwys := hperm.length_eq
        simp only [List.length_cons, List.length_append] at hfuel ⊢
        omega
      have howned : a.own ((ws ++ zs) ++ x :: done) d = a.own (x :: (ys ++ zs) ++ done) d :=
        Arena.own_congr fun y => by
          simp only [List.mem_append, List.mem_cons, hperm.mem_iff]
          tauto
      rw [← howned]
      exact Worklist.run_cons_run (run_give hx d) (ih (hws.append hs) hlength (x :: done))

theorem run_setOwner (h : a.Forest) (hx : a.find? x = some n) (d : NodeId) :
    (setOwner x d).run a = .ok () (a.own (a.subtree x) d) := by
  have hrun := run_give_pending (h.preorder_spec hx).2
    (Nat.le_succ_of_le (h.length_subtree_le hx)) [] d
  rw [Arena.own_eq_self (List.forall_mem_nil _), List.append_nil] at hrun
  simp [setOwner, hrun]

theorem run_adopt (h : a.Forest) (hd : a.expectDocument d = .ok ()) (hx : a.find? x = some n)
    (hn : n.isDocument = false) :
    (adopt d x).run a = .ok x (a.own (a.subtree x) d) := by
  simp [adopt, hd, Arena.get_eq_ok hx, hn, run_setOwner h hx]

theorem run_adopt_cases (h : a.Forest) (d x : NodeId) :
    (∃ e, (adopt d x).run a = .error e a) ∨
      ∃ n m, a.find? x = some n ∧ n.isDocument = false ∧ a.find? d = some m ∧
        m.isDocument = true ∧ (adopt d x).run a = .ok x (a.own (a.subtree x) d) := by
  cases hd : a.expectDocument d with
  | error e => exact .inl ⟨e, by simp [adopt, hd]⟩
  | ok _ =>
    cases hx : a.find? x with
    | none => exact .inl ⟨.unknownNode x, by simp [adopt, hd, Arena.get_eq_error hx]⟩
    | some n =>
      cases hn : n.isDocument with
      | true => exact .inl ⟨.adoptsDocument, by simp [adopt, hd, Arena.get_eq_ok hx, hn]⟩
      | false =>
        obtain ⟨m, hm, hdoc⟩ := Arena.expectDocument_eq_ok_iff.1 hd
        exact .inr ⟨n, m, rfl, hn, hm, hdoc, run_adopt h hd hx hn⟩

theorem atomic_adopt (h : a.WellFormed) (d x : NodeId) : (adopt d x).Atomic a := by
  rw [Atomic]
  obtain ⟨e, hrun⟩ | ⟨n, m, hx, hn, hd, hdoc, hrun⟩ := run_adopt_cases h.toForest d x
  · rw [hrun]
  · rw [hrun]
    exact h.own_subtree hx hn hd hdoc

theorem stepwise_adopt (h : a.Forest) (d : NodeId)
    (hroot : ∀ n, a.find? x = some n → n.parent = none) : (adopt d x).Stepwise a := by
  obtain ⟨e, hrun⟩ | ⟨n, m, hx, hn, hd, hdoc, hrun⟩ := run_adopt_cases h d x
  · exact stepwise_of_error hrun
  · exact stepwise_of_ok hrun (.single (.own hx (hroot n hx) hn hd hdoc))

/-- A node to be released has no parent, and if it is a document it owns nothing outside. -/
def Releasable (a : Arena) (x : NodeId) (n : Node) : Prop :=
  n.parent = none ∧
    (n.isDocument = true → ∀ y m, a.find? y = some m → m.owner = some x → y ∈ a.subtree x)

theorem run_release (h : a.Forest) (hx : a.find? x = some n) (hn : Releasable a x n) :
    (release x).run a = .ok (a.subtree x).length (a.drop (a.subtree x)) := by
  obtain ⟨hp, howns⟩ := hn
  have ho : ¬ (n.isDocument = true ∧ ∃ m ∈ a.nodes, m.owner = some x ∧ m.id ∉ a.subtree x) := by
    rintro ⟨hdoc, m, hm, howner, hmem⟩
    exact hmem (howns hdoc m.id m (h.find?_id_of_mem_nodes hm) howner)
  simp [release, Arena.get_eq_ok hx, hp, h.preorder_eq hx, ho]

theorem run_release_refused (h : a.Forest) (hx : a.find? x = some n) (hn : ¬ Releasable a x n) :
    ∃ e, (release x).run a = .error e a ∧ (e = .releasesAttached ∨ e = .releasesOwner) := by
  cases hp : n.parent with
  | some p => exact ⟨.releasesAttached, by simp [release, Arena.get_eq_ok hx, hp], .inl rfl⟩
  | none =>
    have ho : n.isDocument = true ∧ ∃ m ∈ a.nodes, m.owner = some x ∧ m.id ∉ a.subtree x := by
      by_contra hno
      apply hn
      refine ⟨hp, fun hdoc y m hy howner => ?_⟩
      by_contra hmem
      rw [← h.id_eq hy] at hmem
      exact hno ⟨hdoc, m, Arena.mem_nodes_iff.2 ⟨y, hy⟩, howner, hmem⟩
    exact ⟨.releasesOwner, by simp [release, Arena.get_eq_ok hx, hp, h.preorder_eq hx, ho], .inr rfl⟩

theorem stepwise_release (h : a.Forest) (x : NodeId) : (release x).Stepwise a := by
  cases hx : a.find? x with
  | none => exact stepwise_of_error (e := .unknownNode x) (by simp [release, Arena.get_eq_error hx])
  | some n =>
    by_cases hn : Releasable a x n
    · exact stepwise_of_ok (run_release h hx hn) (.single (.drop hx hn.1 hn.2))
    · obtain ⟨e, hrun, -⟩ := run_release_refused h hx hn
      exact stepwise_of_error hrun

end Edit

end DocTree
