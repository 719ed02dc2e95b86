import DocTree.Proofs.Edit.Insertion

namespace DocTree

namespace Arena

structure AdmitsAll (a : Arena) (p : NodeId) (xs : List NodeId) : Prop where
  admits : ∀ x ∈ xs, ∃ m n, a.Admits p x m n
  single : ∀ m, a.find? p = some m → m.isDocument = true →
    (xs.filter a.isElementAt).length + (m.children.filter a.isElementAt).length ≤ 1

/-- `b` comes from `a` when the nodes move under `p`, one after another, each to its place. -/
inductive Moves (p : NodeId) (place : Arena → NodeId → Option NodeId → Prop) :
    Arena → List NodeId → Arena → Prop
  | nil : Moves p place a [] a
  | cons : a.Admits p x m n → a.Spare m n → m.document = some d → place a x ref →
      Moves p place (a.moved p x d ref) xs b → Moves p place a (x :: xs) b

variable {a b : Arena} {p x y c d : NodeId} {k m n : Node} {xs ps : List NodeId}
  {ref : Option NodeId} {place : Arena → NodeId → Option NodeId → Prop}

theorem Moves.changes (h : a.WellFormed) (hab : Moves p place a xs b) : a.Changes b := by
  induction hab with
  | nil => exact .refl
  | cons hpx hs hd _ _ ih => exact (h.changes_moved hpx hs hd _).trans (ih (h.moved hpx hs hd _))

theorem Moves.mono {place' : Arena → NodeId → Option NodeId → Prop} (hab : Moves p place a xs b)
    (himp : ∀ {a x ref}, place a x ref → place' a x ref) : Moves p place' a xs b := by
  induction hab with
  | nil => exact .nil
  | cons hpx hs hd hplace _ ih => exact .cons hpx hs hd (himp hplace) ih

theorem AdmitsAll.spare (h : a.AdmitsAll p xs) (hx : x ∈ xs) (hpx : a.Admits p x m n) :
    a.Spare m n := by
  intro hdoc hel c hc
  have hsingle := h.single m hpx.parent hdoc
  have hmem : x ∈ xs.filter a.isElementAt :=
    List.mem_filter.2 ⟨hx, (isElementAt_eq hpx.node).trans hel⟩
  have hpos := List.length_pos_of_mem hmem
  have hnone : m.children.filter a.isElementAt = [] := by
    apply List.eq_nil_of_length_eq_zero
    omega
  simpa using List.filter_eq_nil_iff.1 hnone c hc

theorem Admits.moved (h : a.Forest) (hpx : a.Admits p x m n) {i j : Node}
    (hpy : a.Admits p y i j) (d : NodeId) (ref : Option NodeId) :
    ∃ i j, (a.moved p x d ref).Admits p y i j := by
  obtain ⟨ps, hps⟩ := h.lineage hpx.parent
  refine ⟨_, _, find?_moved_of_live hpy.parent, hpy.not_comment, find?_moved_of_live hpy.node,
    hpy.not_document, ?_⟩
  exact mt (hps.within_congr (hps.moved hpx.not_within)).1 hpy.not_within

theorem AdmitsAll.moved (h : a.Forest) (hall : a.AdmitsAll p (x :: xs)) (hpx : a.Admits p x m n)
    (d : NodeId) (ref : Option NodeId) : (a.moved p x d ref).AdmitsAll p xs where
  admits y hy := by
    obtain ⟨i, j, hpy⟩ := hall.admits y (List.mem_cons_of_mem _ hy)
    exact hpx.moved h hpy d ref
  single m' hm' hdoc := by
    rw [find?_moved_of_live hpx.parent] at hm'
    obtain rfl := Option.some.inj hm'
    have hsingle := hall.single m hpx.parent hdoc
    have hel : (a.moved p x d ref).isElementAt = a.isElementAt :=
      funext (isElementAt_moved a p x d ref)
    -- The moved node counts among the children now, no longer among those to come.
    have hperm := (Edit.insertInto_perm x ref (m.children.filter (· != x))).filter a.isElementAt
    have hsub : ((m.children.filter (· != x)).filter a.isElementAt).length ≤
        (m.children.filter a.isElementAt).length :=
      (List.filter_sublist.filter _).length_le
    simp only [if_true, hel, hperm.length_eq]
    rw [List.filter_cons] at hsingle ⊢
    split at hsingle <;> simp_all <;> omega

theorem forM_eq_ok_iff {f : NodeId → Except Error Unit} :
    xs.forM f = .ok () ↔ ∀ x ∈ xs, f x = .ok () := by
  induction xs with
  | nil => simp
  | cons x xs ih =>
    cases hx : f x with
    | error e => simp [hx]
    | ok _ => simpa [hx] using ih

theorem checkAll_eq_ok {replacing : Bool} (hall : a.checkAll p xs replacing = .ok ()) :
    (∃ m, a.find? p = some m ∧ (m.isDocument = true →
      ∀ ys, a.elementsOf xs = .ok ys → ys.length ≤ 1)) ∧
    ∀ x ∈ xs, (if replacing = true then a.checkParent p x else a.checkInsertion p x none) =
      .ok () := by
  obtain ⟨_, hforM, hrest⟩ := bind_eq_ok_iff.1 hall
  obtain ⟨m, hm, hrest⟩ := bind_eq_ok_iff.1 hrest
  refine ⟨⟨m, get_eq_ok_iff.1 hm, ?_⟩, forM_eq_ok_iff.1 hforM⟩
  intro hdoc ys hys
  by_contra hlen
  simp [hdoc, hys, Nat.lt_of_not_le hlen] at hrest

theorem filter_isElementAt_eq_nil (hs : a.Spare m n) (hdoc : m.isDocument = true)
    (hel : n.isElement = true) : m.children.filter a.isElementAt = [] :=
  List.filter_eq_nil_iff.2 fun c hc => by simp [hs hdoc hel c hc]

theorem admitsAll_of_checkAll (h : a.WellFormed) (hall : a.checkAll p xs false = .ok ()) :
    (∃ m, a.find? p = some m) ∧ a.AdmitsAll p xs := by
  obtain ⟨⟨m, hm, helements⟩, hchecks⟩ := checkAll_eq_ok hall
  have hadmits : ∀ x ∈ xs, ∃ m n, a.Admits p x m n ∧ a.Spare m n := by
    intro x hx
    have hcheck : a.checkInsertion p x none = .ok () := by simpa using hchecks x hx
    obtain ⟨m, n, hpx, -, hs⟩ := (checkInsertion_eq_ok_iff h.toForest).1 hcheck
    exact ⟨m, n, hpx, hs⟩
  refine ⟨⟨m, hm⟩, fun x hx => ?_, fun m' hm' hdoc => ?_⟩
  · obtain ⟨m, n, hpx, -⟩ := hadmits x hx
    exact ⟨m, n, hpx⟩
  · obtain rfl := Option.eq_some_unique hm hm'
    have hcount : (xs.filter a.isElementAt).length ≤ 1 := by
      refine helements hdoc _ (elementsOf_eq fun x hx => ?_)
      obtain ⟨_, n, hpx, -⟩ := hadmits x hx
      exact ⟨n, hpx.node⟩
    cases hlist : xs.filter a.isElementAt with
    | nil => simpa using h.length_elements_le hm hdoc
    | cons x ys =>
      have hx : x ∈ xs.filter a.isElementAt := by simp [hlist]
      obtain ⟨hx, hel⟩ := List.mem_filter.1 hx
      obtain ⟨m', n, hpx, hs⟩ := hadmits x hx
      obtain rfl := Option.eq_some_unique hm hpx.parent
      rw [filter_isElementAt_eq_nil hs hdoc (isElementAt_eq hpx.node ▸ hel), ← hlist]
      simpa using hcount

theorem admits_of_checkAll_replacing (h : a.Forest) (hall : a.checkAll p xs true = .ok ()) :
    ∃ m, a.find? p = some m ∧ (∀ x ∈ xs, ∃ m n, a.Admits p x m n) ∧
      (m.isDocument = true → (xs.filter a.isElementAt).length ≤ 1) := by
  obtain ⟨⟨m, hm, helements⟩, hchecks⟩ := checkAll_eq_ok hall
  have hadmits : ∀ x ∈ xs, ∃ m n, a.Admits p x m n := fun x hx =>
    (checkParent_eq_ok_iff h).1 (by simpa using hchecks x hx)
  refine ⟨m, hm, hadmits, fun hdoc => helements hdoc _ (elementsOf_eq fun x hx => ?_)⟩
  obtain ⟨_, n, hpx⟩ := hadmits x hx
  exact ⟨n, hpx.node⟩

theorem filter_notMem_self (row : List NodeId) : row.filter (· ∉ row) = [] :=
  List.filter_eq_nil_iff.2 fun y hy => by simp [hy]

theorem admitsAll_unlinkAll (h : a.Forest) (hp : a.find? p = some m)
    (hadmits : ∀ x ∈ xs, ∃ m n, a.Admits p x m n)
    (hsingle : m.isDocument = true → (xs.filter a.isElementAt).length ≤ 1) :
    (a.unlinkAll m.children).AdmitsAll p xs where
  admits x hx := by
    obtain ⟨i, n, hpx⟩ := hadmits x hx
    obtain ⟨ps, hps⟩ := h.lineage hp
    have hbelow : ∀ c ∈ m.children, ¬ a.Within c p := fun c hc =>
      h.not_within_of_hasParent (h.hasParent_of_mem hp hc)
    refine ⟨_, _, find?_mapNodes_of_live hpx.parent, hpx.not_comment,
      find?_mapNodes_of_live hpx.node, hpx.not_document, ?_⟩
    exact mt (hps.within_congr (hps.unlinkAll hbelow)).1 hpx.not_within
  single m' hm' hdoc := by
    have hm : (a.unlinkAll m.children).find? p = some _ := find?_mapNodes_of_live hp
    rw [hm] at hm'
    obtain rfl := Option.some.inj hm'
    rw [filter_notMem_self, funext (isElementAt_unlinkAll a m.children)]
    simpa using hsingle hdoc

end Arena

namespace Edit

open Arena (Moves)

variable {a b : Arena} {p x c d : NodeId} {m n : Node} {xs : List NodeId} {ref : Option NodeId}
  {place : Arena → NodeId → Option NodeId → Prop}

/-- A loop of edits that each move their node when it is admitted goes through; `K` is what the
edits need beside that. -/
theorem run_forM_moves (edit : NodeId → Edit Unit) (K : Arena → Prop)
    (hK : ∀ {a x m n d ref}, K a → a.Admits p x m n → K (a.moved p x d ref))
    (hedit : ∀ {a x m n d}, a.WellFormed → K a → a.Admits p x m n → a.Spare m n →
      m.document = some d → ∃ ref, place a x ref ∧ (edit x).run a = .ok () (a.moved p x d ref))
    (h : a.WellFormed) (hk : K a) (hall : a.AdmitsAll p xs) :
    ∃ b, (xs.forM edit).run a = .ok () b ∧ Moves p place a xs b := by
  induction xs generalizing a with
  | nil => exact ⟨a, rfl, .nil⟩
  | cons x xs ih =>
    obtain ⟨m, n, hpx⟩ := hall.admits x (by simp)
    have hs := hall.spare (by simp) hpx
    obtain ⟨d, -, hd, -⟩ := h.document_live hpx.parent
    obtain ⟨ref, hplace, hrun⟩ := hedit h hk hpx hs hd
    obtain ⟨b, hb, hmoves⟩ := ih (h.moved hpx hs hd ref) (hK hk hpx)
      (hall.moved h.toForest hpx d ref)
    refine ⟨b, ?_, .cons hpx hs hd hplace hmoves⟩
    change EStateM.run (edit x >>= fun _ => xs.forM edit) a = _
    rw [EStateM.run_bind, hrun]
    exact hb

theorem run_appendChild (h : a.WellFormed) (hpx : a.Admits p x m n) (hs : a.Spare m n)
    (hd : m.document = some d) : (appendChild p x).run a = .ok x (a.moved p x d none) :=
  run_insertBefore h hpx hs (by simp) rfl hd

theorem run_forM_appendChild (h : a.WellFormed) (hall : a.AdmitsAll p xs) :
    ∃ b, (xs.forM fun x => do let _ ← appendChild p x : Edit Unit).run a = .ok () b ∧
      Moves p (fun _ _ ref => ref = none) a xs b := by
  apply run_forM_moves _ (fun _ => True) (fun _ _ => trivial) _ h trivial hall
  intro a x m n d h _ hpx hs hd
  exact ⟨none, rfl, by simp [run_appendChild h hpx hs hd]⟩

theorem run_append (h : a.WellFormed) (hcheck : a.checkAll p xs false = .ok ()) :
    ∃ b, (append p xs).run a = .ok () b ∧ Moves p (fun _ _ ref => ref = none) a xs b := by
  obtain ⟨b, hb, hmoves⟩ :=
    run_forM_appendChild h (Arena.admitsAll_of_checkAll h hcheck).2
  refine ⟨b, ?_, hmoves⟩
  simpa [append, hcheck] using hb

theorem stepwise_append (h : a.WellFormed) (p : NodeId) (xs : List NodeId) :
    (append p xs).Stepwise a := by
  cases hcheck : a.checkAll p xs false with
  | error e => exact stepwise_of_error (e := e) (by simp [append, hcheck])
  | ok _ =>
    obtain ⟨b, hb, hmoves⟩ := run_append h hcheck
    exact stepwise_of_ok hb (hmoves.changes h)

def InFront (p f : NodeId) (a : Arena) (x : NodeId) (ref : Option NodeId) : Prop :=
  (a.HasParent f p → a.reference x (some f) = .ok ref) ∧ (¬ a.HasParent f p → ref = none)

def Ahead (p : NodeId) (child : Option NodeId) (a : Arena) (x : NodeId) (ref : Option NodeId) :
    Prop :=
  (∀ c, child = some c → a.HasParent c p) → a.reference x child = .ok ref

theorem ahead_none (href : ref = none) : Ahead p none a x ref := by
  rintro -
  rw [href]
  rfl

theorem run_forM_insertBefore {f : NodeId} {k : Node} (h : a.WellFormed) (hf : a.find? f = some k)
    (hall : a.AdmitsAll p xs) :
    ∃ b, (xs.forM fun x => do
        if (← (← get).get f).parent = some p then let _ ← insertBefore p x (some f)
        else let _ ← appendChild p x : Edit Unit).run a = .ok () b ∧
      Moves p (InFront p f) a xs b := by
  apply run_forM_moves _ (fun a => ∃ k, a.find? f = some k) _ _ h ⟨k, hf⟩ hall
  · rintro a x m n d ref ⟨k, hk⟩ -
    exact ⟨_, Arena.find?_moved_of_live hk⟩
  · rintro a x m n d h ⟨k, hk⟩ hpx hs hd
    by_cases hp : k.parent = some p
    · have hfp : a.HasParent f p := ⟨k, hk, hp⟩
      obtain ⟨ref, hr⟩ := h.reference_eq_ok hpx.node (some f)
      have hplace : ∀ c, some f = some c → a.HasParent c p := by
        rintro c ⟨⟩
        exact hfp
      refine ⟨ref, ⟨fun _ => hr, fun hn => absurd hfp hn⟩, ?_⟩
      simp [Arena.get_eq_ok hk, hp, run_insertBefore h hpx hs hplace hr hd]
    · have hfp : ¬ a.HasParent f p := by
        rintro ⟨j, hj, hjp⟩
        simp_all
      refine ⟨none, ⟨fun hn => absurd hn hfp, fun _ => rfl⟩, ?_⟩
      simp [Arena.get_eq_ok hk, hp, run_appendChild h hpx hs hd]

theorem run_prepend (h : a.WellFormed) (hcheck : a.checkAll p xs false = .ok ()) :
    ∃ m b, a.find? p = some m ∧ (prepend p xs).run a = .ok () b ∧
      Moves p (Ahead p m.children.head?) a xs b := by
  obtain ⟨⟨m, hm⟩, hall⟩ := Arena.admitsAll_of_checkAll h hcheck
  have hfirst : a.firstChild p = .ok m.children.head? := by
    simp [Arena.firstChild, Arena.childNodes, Arena.get_eq_ok hm]
  refine ⟨m, ?_⟩
  cases hc : m.children.head? with
  | none =>
    obtain ⟨b, hb, hmoves⟩ := run_forM_appendChild h hall
    exact ⟨b, hm, by simpa [prepend, hcheck, hfirst, hc] using hb, hmoves.mono ahead_none⟩
  | some f =>
    obtain ⟨k, hk⟩ := h.child_live hm f (List.mem_of_mem_head? hc)
    obtain ⟨b, hb, hmoves⟩ := run_forM_insertBefore h hk hall
    exact ⟨b, hm, by simpa [prepend, hcheck, hfirst, hc] using hb,
      hmoves.mono fun hplace hf => hplace.1 (hf f rfl)⟩

theorem stepwise_prepend (h : a.WellFormed) (p : NodeId) (xs : List NodeId) :
    (prepend p xs).Stepwise a := by
  cases hcheck : a.checkAll p xs false with
  | error e => exact stepwise_of_error (e := e) (by simp [prepend, hcheck])
  | ok _ =>
    obtain ⟨m, b, -, hb, hmoves⟩ := run_prepend h hcheck
    exact stepwise_of_ok hb (hmoves.changes h)

theorem run_forM_update (f : Node → Node) (hxs : ∀ x ∈ xs, ∃ n, a.find? x = some n) :
    (xs.forM fun x => update x f).run a = .ok () (a.updateAll xs f) := by
  induction xs generalizing a with
  | nil => rfl
  | cons x xs ih =>
    obtain ⟨n, hn⟩ := hxs x (by simp)
    change EStateM.run (update x f >>= fun _ => xs.forM fun x => update x f) a = _
    rw [EStateM.run_bind, run_update hn]
    apply ih
    intro y hy
    obtain ⟨k, hk⟩ := hxs y (List.mem_cons_of_mem _ hy)
    exact Arena.find?_update_of_live hk x f

theorem updateAll_update_eq_unlinkAll (h : a.Forest) (hp : a.find? p = some m) :
    (a.update p ({ · with children := [] })).updateAll m.children ({ · with parent := none }) =
      a.unlinkAll m.children := by
  rw [Arena.updateAll_eq_mapNodes (h.children_nodup hp), Arena.update_eq_mapNodes,
    Arena.mapNodes_mapNodes, Arena.unlinkAll]
  apply Arena.mapNodes_congr
  intro y n hy
  have hchildren : n.children.filter (· ∉ m.children) = if p = y then [] else n.children := by
    split
    next hpy =>
      subst hpy
      obtain rfl := Option.eq_some_unique hp hy
      exact Arena.filter_notMem_self _
    next hpy =>
      refine List.filter_eq_self.2 fun c hc => decide_eq_true fun hcp => ?_
      exact hpy ((h.hasParent_of_mem hp hcp).unique (h.hasParent_of_mem hy hc))
  rw [hchildren]
  by_cases hpy : p = y <;> by_cases hmem : y ∈ m.children <;> simp [hpy, hmem]

theorem run_replaceChildren (h : a.WellFormed) (hcheck : a.checkAll p xs true = .ok ()) :
    ∃ m b, a.find? p = some m ∧ (replaceChildren p xs).run a = .ok () b ∧
      Moves p (fun _ _ ref => ref = none) (a.unlinkAll m.children) xs b := by
  obtain ⟨m, hm, hadmits, hsingle⟩ := Arena.admits_of_checkAll_replacing h.toForest hcheck
  obtain ⟨b, hb, hmoves⟩ := run_forM_appendChild (h.unlinkAll m.children)
    (Arena.admitsAll_unlinkAll h.toForest hm hadmits hsingle)
  have hold : a.childNodes p = .ok m.children := by
    simp [Arena.childNodes, Arena.get_eq_ok hm]
  have hlive : ∀ c ∈ m.children, ∃ k, (a.update p ({ · with children := [] })).find? c = some k := by
    intro c hc
    obtain ⟨k, hk⟩ := h.child_live hm c hc
    exact Arena.find?_update_of_live hk p _
  have hclear := run_forM_update ({ · with parent := none }) hlive
  rw [updateAll_update_eq_unlinkAll h.toForest hm, List.forM_eq_forM] at hclear
  refine ⟨m, b, hm, ?_, hmoves⟩
  simpa [replaceChildren, hcheck, hold, run_update hm, hclear] using hb

theorem stepwise_replaceChildren (h : a.WellFormed) (p : NodeId) (xs : List NodeId) :
    (replaceChildren p xs).Stepwise a := by
  cases hcheck : a.checkAll p xs true with
  | error e => exact stepwise_of_error (e := e) (by simp [replaceChildren, hcheck])
  | ok _ =>
    obtain ⟨m, b, -, hb, hmoves⟩ := run_replaceChildren h hcheck
    exact stepwise_of_ok hb (.head (.unlinkAll m.children) (hmoves.changes (h.unlinkAll m.children)))

end Edit

end DocTree
