import DocTree.Proofs.Edit.Operation
import Mathlib.Data.List.Nodup

namespace DocTree

namespace Edit

/-- The row `xs` with `x` put before a child, at the end if there is none.  Before itself it stays
where it is. -/
inductive PutBefore (x : NodeId) : Option NodeId → List NodeId → List NodeId → Prop
  | atEnd : PutBefore x none xs (xs.filter (· != x) ++ [x])
  | before : c ≠ x → xs.filter (· != x) = ys ++ c :: zs →
      PutBefore x (some c) xs (ys ++ x :: c :: zs)
  | stays : x ∈ xs → PutBefore x (some x) xs xs

variable {x c : NodeId} {ys zs : List NodeId}

theorem insertInto_append (hc : c ∉ ys) (zs : List NodeId) :
    insertInto x (some c) (ys ++ c :: zs) = ys ++ x :: c :: zs := by
  induction ys with
  | nil => simp [insertInto]
  | cons y ys ih =>
    rw [List.mem_cons, not_or] at hc
    rw [List.cons_append, insertInto, if_neg (by simpa using hc.1), ih hc.2, List.cons_append]

theorem insertInto_head? (h : (ys ++ x :: zs).Nodup) :
    insertInto x zs.head? ((ys ++ x :: zs).filter (· != x)) = ys ++ x :: zs := by
  have hx : x ∉ ys := fun hx => List.disjoint_of_nodup_append h hx (by simp)
  rw [← h.erase_eq_filter, List.erase_append_right _ hx, List.erase_cons_head]
  cases zs with
  | nil => rw [List.head?_nil, insertInto_none, List.append_nil]
  | cons z zs =>
    have hz : z ∉ ys := fun hz => List.disjoint_of_nodup_append h hz (by simp)
    rw [List.head?_cons, insertInto_append hz]

end Edit

namespace Arena

variable {a b : Arena} {p x c d y q : NodeId} {m n k : Node} {child ref : Option NodeId}

theorem Forest.putBefore (h : a.Forest) (hp : a.find? p = some m)
    (hc : ∀ c, child = some c → a.HasParent c p) (hr : a.reference x child = .ok ref) :
    Edit.PutBefore x child m.children
      (Edit.insertInto x ref (m.children.filter (· != x))) := by
  cases child with
  | none =>
    obtain rfl : none = ref := by simpa [reference] using hr
    rw [Edit.insertInto_none]
    exact .atEnd
  | some c =>
    have hcp := hc c rfl
    by_cases hcx : c = x
    · subst hcx
      obtain ⟨m', before, after, hm', hsplit⟩ := h.exists_split hcp
      obtain rfl := Option.eq_some_unique hp hm'
      obtain rfl : after.head? = ref := by
        simpa [reference, nextSibling, h.around_eq hcp hp hsplit] using hr
      have hnodup := h.children_nodup hp
      rw [hsplit] at hnodup ⊢
      rw [Edit.insertInto_head? hnodup]
      exact .stays (by simp)
    · obtain rfl : some c = ref := by simpa [reference, hcx] using hr
      have hmem : c ∈ m.children.filter (· != x) :=
        List.mem_filter.2 ⟨(h.mem_children_iff hp).2 hcp, bne_iff_ne.2 hcx⟩
      obtain ⟨ys, zs, hsplit, hys⟩ := List.eq_append_cons_of_mem hmem
      rw [hsplit, Edit.insertInto_append hys]
      exact .before hcx hsplit

structure Rehomed (a : Arena) (p x d : NodeId) (b : Arena) : Prop where
  node : ∀ n, a.find? x = some n → b.find? x = some { n with parent := some p, owner := some d }
  below : ∀ y n, a.Above x y → a.find? y = some n → b.find? y = some { n with owner := some d }
  nextId : b.nextId = a.nextId
  live : b.live = a.live

structure Inserted (a : Arena) (p x : NodeId) (child : Option NodeId) (d : NodeId) (b : Arena) :
    Prop extends Rehomed a p x d b where
  parent : ∀ m, a.find? p = some m → ∃ row, Edit.PutBefore x child m.children row ∧
    b.find? p = some { m with children := row }
  former : ∀ q m, a.HasParent x q → q ≠ p → a.find? q = some m →
    b.find? q = some { m with children := m.children.filter (· != x) }
  others : ∀ y, y ≠ p → ¬ a.HasParent x y → ¬ a.Within x y → b.find? y = a.find? y

structure Replaced (a : Arena) (p x c d : NodeId) (b : Arena) : Prop extends Rehomed a p x d b where
  parent : ∀ m, a.find? p = some m → ∃ ys zs, m.children.filter (· != x) = ys ++ c :: zs ∧
    b.find? p = some { m with children := ys ++ x :: zs }
  former : ∀ q m, a.HasParent x q → q ≠ p → q ≠ c → a.find? q = some m →
    b.find? q = some { m with children := m.children.filter (· != x) }
  child : ∀ k, a.find? c = some k →
    b.find? c = some { k with parent := none, children := k.children.filter (· != x) }
  /-- What remains below the child is what was there, less the node that left. -/
  remains : ∀ y n, a.find? y = some n → (b.Within c y ↔ a.Within c y ∧ ¬ a.Within x y)
  others : ∀ y, y ≠ p → y ≠ c → ¬ a.HasParent x y → ¬ a.Within x y → b.find? y = a.find? y

namespace Forest

variable (h : a.Forest)
include h

theorem not_hasParent_of_within (hxy : a.Within x y) : ¬ a.HasParent x y := fun hp =>
  h.not_within_of_hasParent hp hxy

theorem ne_and_notMem_subtree (hx : a.find? x = some n) (hxy : ¬ a.Within x y) :
    y ≠ x ∧ y ∉ a.subtree x :=
  ⟨fun hyx => hxy (.inl hyx), mt (h.mem_subtree_iff hx).1 hxy⟩

theorem map_filter_children (hxy : ¬ a.HasParent x y) :
    (a.find? y).map (fun k => { k with children := k.children.filter (· != x) }) = a.find? y := by
  cases hy : a.find? y with
  | none => rfl
  | some k => rw [Option.map_some, h.filter_children_eq_self hy hxy]

theorem rehomed (hx : a.find? x = some n)
    (hb : ∀ y k, a.Within x y → a.find? y = some k → b.find? y = some
      { k with
        parent := if y = x then some p else k.parent
        children := k.children.filter (· != x)
        owner := if y ∈ a.subtree x then some d else k.owner })
    (hnextId : b.nextId = a.nextId) (hlive : b.live = a.live) : a.Rehomed p x d b where
  node k hk := by
    have hself := (h.mem_subtree_iff hx).2 (.refl a x)
    have hchildren := h.filter_children_eq_self hk (h.not_hasParent_of_within (.refl a x))
    rw [hb x k (.refl a x) hk, if_pos rfl, if_pos hself, hchildren]
  below y k hxy hk := by
    have hmem := (h.mem_subtree_iff hx).2 (.inr hxy)
    have hyx : y ≠ x := by
      rintro rfl
      exact not_above_self hxy
    have hchildren := h.filter_children_eq_self hk (h.not_hasParent_of_within (.inr hxy))
    rw [hb y k (.inr hxy) hk, if_neg hyx, if_pos hmem, hchildren]
  nextId := hnextId
  live := hlive

theorem inserted_moved (hpx : a.Admits p x m n) (hc : ∀ c, child = some c → a.HasParent c p)
    (hr : a.reference x child = .ok ref) (d : NodeId) :
    a.Inserted p x child d (a.moved p x d ref) := by
  have hother : ∀ y, y ≠ p → ¬ a.Within x y → (a.moved p x d ref).find? y =
      (a.find? y).map fun k => { k with children := k.children.filter (· != x) } := by
    intro y hyp hxy
    simp only [find?_moved, h.ne_and_notMem_subtree hpx.node hxy, hyp, if_false]
  refine
    { toRehomed := h.rehomed hpx.node ?_ (nextId_moved ..) rfl
      parent := ?parent
      former := ?former
      others := ?others }
  · intro y k hxy hk
    have hyp : y ≠ p := fun hyp => hpx.not_within (hyp ▸ hxy)
    rw [find?_moved_of_live hk, if_neg hyp]
  case parent =>
    intro k hk
    have hp := h.ne_and_notMem_subtree hpx.node hpx.not_within
    refine ⟨_, h.putBefore hk hc hr, ?_⟩
    simp only [find?_moved_of_live hk, hp, if_true, if_false]
  case former =>
    intro q k hxq hqp hk
    rw [hother q hqp (h.not_within_of_hasParent hxq), hk, Option.map_some]
  case others =>
    intro y hyp hxy hwithin
    rw [hother y hyp hwithin, h.map_filter_children hxy]

end Forest

theorem find?_replaced (a : Arena) (p x c d y : NodeId) :
    (a.replaced p x c d).find? y = (a.find? y).map fun n =>
      { n with
        parent := if y = c then none else if y = x then some p else n.parent
        children :=
          if y = p then (n.children.filter (· != x)).replace c x else n.children.filter (· != x)
        owner := if y ∈ a.subtree x then some d else n.owner } :=
  find?_mapNodes ..

namespace WellFormed

variable (h : a.WellFormed)
include h

theorem within_replaced_iff (hpx : a.Admits p x m n) (hc : a.HasParent c p)
    (hs : a.SpareBut m n c) (hd : m.document = some d) (hxc : ¬ a.Within x c)
    (hy : a.find? y = some k) :
    (a.replaced p x c d).Within c y ↔ a.Within c y ∧ ¬ a.Within x y := by
  have hne : x ≠ c := fun hxc' => hxc (.inl hxc'.symm)
  have hforest := (h.of_changes (h.changes_replaced hpx hc hs hd hne)).toForest
  have hfind : ∀ {z j}, a.find? z = some j → (a.replaced p x c d).find? z = _ := fun hz =>
    find?_mapNodes_of_live hz
  have hroot : ¬ a.Within c p := h.not_within_of_hasParent hc
  have hbelow : (a.replaced p x c d).HasParent x p :=
    ⟨_, hfind hpx.node, by simp [hne]⟩
  have hparent : ¬ (a.replaced p x c d).Within c p := by
    obtain ⟨ps, hps⟩ := h.lineage hpx.parent
    refine mt (hps.within_congr (hps.congr fun z hz j hj => ⟨_, hfind hj, ?_⟩)).1 hroot
    have hzp : a.Within z p := hps.within_iff.2 hz
    have hzc : z ≠ c := fun hzc => hroot (hzc ▸ hzp)
    have hzx : z ≠ x := fun hzx => hpx.not_within (hzx ▸ hzp)
    simp [hzc, hzx]
  have hself : (a.replaced p x c d).Within c x ↔ a.Within c x ∧ ¬ a.Within x x := by
    simp [hforest.within_iff_of_hasParent hbelow, hne, hparent, Within.refl]
  refine h.ascend (P := fun y => (a.replaced p x c d).Within c y ↔
    a.Within c y ∧ ¬ a.Within x y) ?_ ?_ hy
  · intro y k hy hk
    by_cases hyx : y = x
    · exact hyx ▸ hself
    have hyc : y ≠ c := by
      rintro rfl
      exact hc.ne_root hy hk
    have hk' : (if y = c then none else if y = x then some p else k.parent) = none := by
      simp [hyc, hyx, hk]
    simp [Within, hyc, not_above_root hy hk, not_above_root (hfind hy) hk']
  · intro y q hyq ih
    by_cases hyx : y = x
    · exact hyx ▸ hself
    by_cases hyc : y = c
    · subst hyc
      simp [Within.refl, hxc]
    obtain ⟨j, hj, hjq⟩ := id hyq
    have hyq' : (a.replaced p x c d).HasParent y q := ⟨_, hfind hj, by simp [hyc, hyx, hjq]⟩
    rw [hforest.within_iff_of_hasParent hyq', h.within_iff_of_hasParent hyq,
      h.within_iff_of_hasParent hyq, ih]
    simp [hyc, hyx]

theorem replaced_replaced (hpx : a.Admits p x m n) (hc : a.HasParent c p) (hs : a.SpareBut m n c)
    (hd : m.document = some d) (hxc : x ≠ c) : a.Replaced p x c d (a.replaced p x c d) := by
  have hcp : c ≠ p := h.ne_of_hasParent hc
  have hxc : ¬ a.Within x c := fun hw =>
    (h.within_iff_of_hasParent hc).1 hw |>.elim (fun hcx => hxc hcx.symm) hpx.not_within
  have hparent := h.ne_and_notMem_subtree hpx.node hpx.not_within
  have hchild := h.ne_and_notMem_subtree hpx.node hxc
  have hother : ∀ y, y ≠ p → y ≠ c → ¬ a.Within x y → (a.replaced p x c d).find? y =
      (a.find? y).map fun k => { k with children := k.children.filter (· != x) } := by
    intro y hyp hyc hxy
    simp only [find?_replaced, h.ne_and_notMem_subtree hpx.node hxy, hyp, hyc, if_false]
  refine
    { toRehomed := h.rehomed hpx.node ?_ (nextId_mapNodes ..) rfl
      parent := ?parent
      former := ?former
      child := ?child
      remains := fun y k hk => h.within_replaced_iff hpx hc hs hd hxc hk
      others := ?others }
  · intro y k hxy hk
    have hyp : y ≠ p := fun hyp => hpx.not_within (hyp ▸ hxy)
    have hyc : y ≠ c := fun hyc => hxc (hyc ▸ hxy)
    simp only [find?_replaced, hk, hyp, hyc, if_false, Option.map_some]
  case parent =>
    intro k hk
    have hmem : c ∈ k.children.filter (· != x) :=
      List.mem_filter.2 ⟨(h.mem_children_iff hk).2 hc, bne_iff_ne.2 hchild.1⟩
    obtain ⟨ys, zs, hsplit, hys⟩ := List.eq_append_cons_of_mem hmem
    refine ⟨ys, zs, hsplit, ?_⟩
    simp only [find?_replaced, hk, hparent, hcp.symm, if_true, if_false, Option.map_some, hsplit,
      List.replace_append_right hys, List.replace_cons_self]
  case former =>
    intro q k hxq hqp hqc hk
    rw [hother q hqp hqc (h.not_within_of_hasParent hxq), hk, Option.map_some]
  case child =>
    intro k hk
    simp only [find?_replaced, hk, hchild, hcp, if_true, if_false, Option.map_some]
  case others =>
    intro y hyp hyc hxy hwithin
    rw [hother y hyp hyc hwithin, h.map_filter_children hxy]

end WellFormed

/-- An insertion succeeds just where its rules allow it, and then moves the node to its place, gives
its subtree to the document of the new parent, and leaves all other nodes as they are. -/
theorem Reachable.insertBefore_exact (ha : a.Reachable) (p x : NodeId) (child : Option NodeId) :
    ((∃ y b, (Edit.insertBefore p x child).run a = .ok y b) ↔
      ∃ m n, a.Admits p x m n ∧ (∀ c, child = some c → a.HasParent c p) ∧ a.Spare m n) ∧
    ∀ y b, (Edit.insertBefore p x child).run a = .ok y b →
      y = x ∧ ∃ d, a.nodeDocument p = .ok (some d) ∧ a.Inserted p x child d b := by
  have h := ha.wellFormed
  rw [← checkInsertion_eq_ok_iff h.toForest]
  cases hcheck : a.checkInsertion p x child with
  | error e =>
    have hrun : (Edit.insertBefore p x child).run a = .error e a := by
      simp [Edit.insertBefore, hcheck]
    simp [hrun]
  | ok _ =>
    obtain ⟨m, n, hpx, hc, hs⟩ := (checkInsertion_eq_ok_iff h.toForest).1 hcheck
    obtain ⟨d, -, hd, -⟩ := h.document_live hpx.parent
    obtain ⟨ref, hr⟩ := h.reference_eq_ok hpx.node child
    have hrun := Edit.run_insertBefore h hpx hs hc hr hd
    refine ⟨iff_of_true ⟨_, _, hrun⟩ rfl, ?_⟩
    rw [hrun]
    rintro _ _ ⟨⟩
    exact ⟨rfl, d, by simp [nodeDocument, get_eq_ok hpx.parent, hd],
      h.inserted_moved hpx hc hr d⟩

theorem insertBefore_exact_across : ∃ a b : Arena, a.Reachable ∧
    (Edit.insertBefore 3 2 (some 4)).run a = .ok 2 b ∧
    (∃ m n, a.Admits 3 2 m n ∧ (∀ c, some 4 = some c → a.HasParent c 3) ∧ a.Spare m n) ∧
    ∃ d, a.nodeDocument 3 = .ok (some d) ∧ a.Inserted 3 2 (some 4) d b := by
  have h : (Operation.run [.createDocument, .createDocument, .createElement 0 "a",
      .createElement 1 "b", .createElement 1 "c", .createComment 0 "d", .appendChild 2 5,
      .appendChild 3 4] .empty).Reachable := ⟨⟨_, rfl⟩, by decide⟩
  obtain ⟨hiff, hall⟩ := h.insertBefore_exact 3 2 (some 4)
  exact ⟨_, _, h, rfl, hiff.1 ⟨2, _, rfl⟩, (hall _ _ rfl).2⟩

/-- A replacement succeeds just where its rules allow it.  It changes nothing if the node is the
child; else the node takes the place of the child with all below it, and the child stands alone with
what remains of its subtree. -/
theorem Reachable.replaceChild_exact (ha : a.Reachable) (p x c : NodeId) :
    ((∃ y b, (Edit.replaceChild p x c).run a = .ok y b) ↔
      ∃ m n, a.Admits p x m n ∧ a.HasParent c p ∧ a.SpareBut m n c) ∧
    ∀ y b, (Edit.replaceChild p x c).run a = .ok y b →
      y = x ∧ (x = c → b = a) ∧
        (x ≠ c → ∃ d, a.nodeDocument p = .ok (some d) ∧ a.Replaced p x c d b) := by
  have h := ha.wellFormed
  rw [← checkReplacement_eq_ok_iff h]
  cases hcheck : a.checkReplacement p x c with
  | error e =>
    have hrun : (Edit.replaceChild p x c).run a = .error e a := by
      simp [Edit.replaceChild, hcheck]
    simp [hrun]
  | ok _ =>
    by_cases hxc : x = c
    · subst hxc
      have hrun : (Edit.replaceChild p x x).run a = .ok x a := by
        simp [Edit.replaceChild, hcheck]
      refine ⟨iff_of_true ⟨_, _, hrun⟩ rfl, ?_⟩
      rw [hrun]
      rintro _ _ ⟨⟩
      exact ⟨rfl, fun _ => rfl, fun hne => absurd rfl hne⟩
    · obtain ⟨m, n, hpx, hc, hs⟩ := (checkReplacement_eq_ok_iff h).1 hcheck
      obtain ⟨d, -, hd, -⟩ := h.document_live hpx.parent
      have hrun := Edit.run_replaceChild h hpx hc hs hd hxc
      refine ⟨iff_of_true ⟨_, _, hrun⟩ rfl, ?_⟩
      rw [hrun]
      rintro _ _ ⟨⟩
      exact ⟨rfl, fun hxc' => absurd hxc' hxc, fun _ =>
        ⟨d, by simp [nodeDocument, get_eq_ok hpx.parent, hd],
          h.replaced_replaced hpx hc hs hd hxc⟩⟩

theorem replaceChild_exact_below : ∃ a b : Arena, a.Reachable ∧
    (Edit.replaceChild 0 3 1).run a = .ok 3 b ∧
    (∃ m n, a.Admits 0 3 m n ∧ a.HasParent 1 0 ∧ a.SpareBut m n 1) ∧
    ∃ d, a.nodeDocument 0 = .ok (some d) ∧ a.Replaced 0 3 1 d b := by
  have h : (Operation.run [.createDocument, .createElement 0 "a", .createElement 0 "b",
      .createElement 0 "c", .createComment 0 "d", .append 0 [4, 1], .appendChild 2 3,
      .appendChild 1 2] .empty).Reachable := ⟨⟨_, rfl⟩, by decide⟩
  obtain ⟨hiff, hall⟩ := h.replaceChild_exact 0 3 1
  exact ⟨_, _, h, rfl, hiff.1 ⟨3, _, rfl⟩, (hall _ _ rfl).2.2 (by decide)⟩

end Arena

end DocTree
