import DocTree.Proofs.Arena.Gathering
import DocTree.Proofs.Edit.Placement
import DocTree.Proofs.Edit.Reached
import Mathlib.Data.List.Dedup

/-! Many nodes that come under one parent: the row they make, and what becomes of the rows they
leave, of their subtrees and of all other nodes. -/

namespace DocTree

namespace Edit

/-- The row after `xs` were put before a child, one after another, or at the end. -/
inductive PutAll (child : Option NodeId) : List NodeId → List NodeId → List NodeId → Prop
  | nil : PutAll child [] row row
  | cons : PutBefore x child row mid → PutAll child xs mid row' → PutAll child (x :: xs) row row'

variable {x f : NodeId} {xs ys zs row row' : List NodeId} {child : Option NodeId}

theorem PutAll.eq_append (h : PutAll none xs row row') :
    row' = row.filter (· ∉ xs) ++ xs.dedup := by
  induction h with
  | nil => simp
  | @cons x row mid xs row' hput _ ih =>
    cases hput with
    | atEnd =>
      rw [ih, List.filter_append, Arena.filter_notMem_cons, List.append_assoc]
      by_cases hx : x ∈ xs <;> simp [hx]

theorem filter_notMem_of_notMem (hf : f ∉ row) (xs : List NodeId) :
    row.filter (· ∉ f :: xs) = row.filter (· ∉ xs) := by
  refine List.filter_congr fun y hy => ?_
  have hyf : y ≠ f := fun hyf => hf (hyf ▸ hy)
  simp [hyf]

theorem PutAll.eq_before (h : PutAll (some f) xs (ys ++ f :: zs) row') (hys : f ∉ ys)
    (hzs : f ∉ zs) :
    row' = ys.filter (· ∉ xs) ++ (xs.filter (· != f)).dedup ++ f :: zs.filter (· ∉ xs) := by
  generalize hrow : ys ++ f :: zs = row at h
  induction h generalizing ys zs with
  | nil =>
    subst hrow
    simp
  | @cons x row mid xs row' hput _ ih =>
    subst hrow
    cases hput with
    | stays =>
      rw [ih hys hzs rfl, filter_notMem_of_notMem hys, filter_notMem_of_notMem hzs]
      simp
    | before hfx hsplit =>
      have hkeep : (f :: zs).filter (· != x) = f :: zs.filter (· != x) :=
        List.filter_cons_of_pos (by simpa using hfx)
      have hne : (x :: xs).filter (· != f) = x :: xs.filter (· != f) :=
        List.filter_cons_of_pos (by simpa using Ne.symm hfx)
      have hys' : f ∉ ys.filter (· != x) := fun hf => hys (List.mem_of_mem_filter hf)
      have hzs' : f ∉ zs.filter (· != x) := fun hf => hzs (List.mem_of_mem_filter hf)
      rw [List.filter_append, hkeep] at hsplit
      obtain ⟨rfl, -, rfl⟩ := (List.append_cons_inj_of_notMem hys' hzs').1 hsplit
      have hfront : f ∉ ys.filter (· != x) ++ [x] := by simp [hys', hfx]
      rw [ih hfront hzs' (by simp), List.filter_append, Arena.filter_notMem_cons,
        Arena.filter_notMem_cons, hne]
      by_cases hx : x ∈ xs <;> simp [hx, Ne.symm hfx]

theorem PutAll.eq_front (h : PutAll (some f) xs (f :: zs) row') (hxs : xs.Nodup) (hzs : f ∉ zs) :
    row' = xs.erase f ++ f :: zs.filter (· ∉ xs) := by
  have hrow : row' = [] ++ (xs.filter (· != f)).dedup ++ f :: zs.filter (· ∉ xs) :=
    h.eq_before List.not_mem_nil hzs
  rw [hrow, (hxs.filter _).dedup, hxs.erase_eq_filter, List.nil_append]

theorem erase_append_eq_iff (hxs : xs.Nodup) : xs.erase f ++ [f] = xs ↔ xs.getLast? = some f := by
  rw [List.getLast?_eq_some_iff]
  constructor
  · exact fun h => ⟨_, h.symm⟩
  · rintro ⟨ys, rfl⟩
    have hf : f ∉ ys := fun hf => List.disjoint_of_nodup_append hxs hf (by simp)
    rw [List.erase_append_right _ hf, List.erase_cons_head, List.append_nil]

theorem PutAll.eq_append_iff (h : PutAll row.head? xs row row') (hxs : xs.Nodup)
    (hrow : row.Nodup) :
    row' = xs ++ row.filter (· ∉ xs) ↔ ∀ f, row.head? = some f → f ∈ xs → xs.getLast? = some f := by
  cases row with
  | nil => simpa [hxs.dedup] using h.eq_append
  | cons f zs =>
    have hzs : f ∉ zs := (List.nodup_cons.1 hrow).1
    rw [h.eq_front hxs hzs]
    by_cases hf : f ∈ xs
    · rw [List.filter_cons_of_neg (by simpa using hf), List.append_cons, List.append_left_inj,
        erase_append_eq_iff hxs]
      simp [hf]
    · rw [List.filter_cons_of_pos (by simpa using hf), List.erase_of_not_mem hf]
      refine iff_of_true rfl fun g hg hgxs => absurd hgxs ?_
      rwa [← Option.some.inj hg]

theorem exact_of_check {a : Arena} {edit : Edit Unit} {check : Except Error Unit}
    {P : Arena → Prop} (hrefused : ∀ e, check = .error e → edit.run a = .error e a)
    (hpassed : check = .ok () → ∃ b, edit.run a = .ok () b ∧ P b) :
    ((∃ b, edit.run a = .ok () b) ↔ check = .ok ()) ∧ ∀ b, edit.run a = .ok () b → P b := by
  cases hcheck : check with
  | error e => simp [hrefused e hcheck]
  | ok _ =>
    obtain ⟨b, hrun, hb⟩ := hpassed hcheck
    simpa [hrun] using hb

end Edit

namespace Arena

variable {a b : Arena} {p x y q c d : NodeId} {m n : Node} {xs gone row : List NodeId}
  {child : Option NodeId} {place : Arena → NodeId → Option NodeId → Prop}

theorem HasParent.moved (hcp : a.HasParent c p) (x d : NodeId) (ref : Option NodeId) :
    (a.moved p x d ref).HasParent c p := by
  obtain ⟨k, hk, hkp⟩ := hcp
  refine ⟨_, find?_moved_of_live hk, ?_⟩
  by_cases hcx : c = x <;> simp [hcx, hkp]

theorem Moves.live (hab : Moves p place a xs b) : ∀ x ∈ xs, ∃ n, a.find? x = some n := by
  induction hab with
  | nil => simp
  | cons hpx _ _ _ _ ih =>
    refine List.forall_mem_cons.2 ⟨⟨_, hpx.node⟩, fun y hy => ?_⟩
    obtain ⟨n, hn⟩ := ih y hy
    rw [find?_moved] at hn
    obtain ⟨k, hk, -⟩ := Option.map_eq_some_iff.1 hn
    exact ⟨k, hk⟩

theorem Moves.exists_gathered (h : a.WellFormed) (hab : Moves p (Edit.Ahead p child) a xs b)
    (hp : a.find? p = some m) (hd : m.document = some d)
    (hc : ∀ c, child = some c → a.HasParent c p) :
    ∃ row, Edit.PutAll child xs m.children row ∧ b = a.gathered p xs [] d row := by
  induction hab generalizing m with
  | nil => exact ⟨m.children, .nil, (gathered_nil hp).symm⟩
  | @cons d' a x ref xs b m' n hpx hs hd' hplace hrest ih =>
    obtain rfl := Option.eq_some_unique hp hpx.parent
    obtain rfl := Option.eq_some_unique hd hd'
    have hmoved := h.moved hpx hs hd ref
    have hput := h.putBefore hp hc (hplace hc)
    have hout := h.ne_and_notMem_subtree hpx.node hpx.not_within
    have hp' : (a.moved p x d ref).find? p = some { m with
        children := Edit.insertInto x ref (m.children.filter (· != x)) } := by
      simp only [find?_moved_of_live hp, hout, if_true, if_false]
    obtain ⟨row, hrow, rfl⟩ := ih hmoved hp' hd fun c hcc => (hc c hcc).moved x d ref
    refine ⟨row, .cons hput hrow, h.gathered_moved hmoved.toForest ?_⟩
    exact (Moves.cons hpx hs hd hplace hrest).live

/-- `b` is `a` with `xs` gathered under `p`.  The other rows lose these nodes and nothing else, the
nodes `gone` are left without parent, and what stands below `xs` belongs to the document of `p`. -/
structure Gathered (a : Arena) (p : NodeId) (xs gone row : List NodeId) (b : Arena) : Prop where
  own : b.childNodes p = .ok row
  members : ∀ x ∈ xs, b.parent x = .ok (some p)
  dropped : ∀ c ∈ gone, c ∉ xs → b.parent c = .ok none
  rows : ∀ y cs, y ≠ p → a.childNodes y = .ok cs → b.childNodes y = .ok (cs.filter (· ∉ xs))
  owned : ∃ d, a.nodeDocument p = .ok (some d) ∧
    ∀ x ∈ xs, ∀ y, b.Within x y → b.ownerDocument y = .ok (some d)
  parents : ∀ y o, y ∉ xs → y ∉ gone → a.parent y = .ok o → b.parent y = .ok o
  owners : ∀ y o, (∀ x ∈ xs, ¬ a.Within x y) → a.ownerDocument y = .ok o → b.ownerDocument y = .ok o
  data : ∀ y, (b.find? y).map (·.data) = (a.find? y).map (·.data)
  nextId : b.nextId = a.nextId
  live : b.live = a.live

theorem HasParent.of_gathered (hyq : (a.gathered p xs gone d row).HasParent y q) (hy : y ∉ xs) :
    a.HasParent y q := by
  obtain ⟨_, hj, hjq⟩ := hyq
  obtain ⟨j, hja, rfl⟩ := find?_mapNodes_eq_some hj
  refine ⟨j, hja, ?_⟩
  dsimp only at hjq
  rw [if_neg hy] at hjq
  split at hjq
  · cases hjq
  · exact hjq

theorem Forest.within_of_within_gathered (h : a.Forest) (hb : (a.gathered p xs gone d row).Forest)
    (hx : x ∈ xs) (hxl : a.find? x = some n) (hxy : (a.gathered p xs gone d row).Within x y) :
    ∃ z ∈ xs, a.Within z y := by
  obtain ⟨k, hk⟩ := hxy.live (find?_mapNodes_of_live hxl)
  refine hb.ascend (P := fun y => (a.gathered p xs gone d row).Within x y → ∃ z ∈ xs, a.Within z y)
    ?_ ?_ hk hxy
  · intro y k hy hyroot hxy
    obtain rfl := hxy.resolve_right (not_above_root hy hyroot)
    exact ⟨y, hx, .refl a y⟩
  · intro y q hyq ih hxy
    by_cases hy : y ∈ xs
    · exact ⟨y, hy, .refl a y⟩
    have hne : y ≠ x := fun hyx => hy (hyx ▸ hx)
    obtain ⟨z, hz, hzq⟩ := ih (((hb.within_iff_of_hasParent hyq).1 hxy).resolve_left hne)
    exact ⟨z, hz, hzq.trans (.inr (h.above_of_hasParent (hyq.of_gathered hy)))⟩

theorem WellFormed.gathered_gathered (h : a.WellFormed)
    (hb : (a.gathered p xs gone d row).WellFormed) (hp : a.find? p = some m)
    (hd : m.document = some d) (hxs : ∀ x ∈ xs, ∃ m n, a.Admits p x m n)
    (hgone : ∀ c ∈ gone, a.HasParent c p) :
    a.Gathered p xs gone row (a.gathered p xs gone d row) := by
  have hlive : ∀ x ∈ xs, ∃ n, a.find? x = some n := by
    intro x hx
    obtain ⟨m, n, hpx⟩ := hxs x hx
    exact ⟨n, hpx.node⟩
  have hfind : ∀ {y n}, a.find? y = some n → (a.gathered p xs gone d row).find? y = some _ :=
    fun hy => find?_mapNodes_of_live hy
  have hmem : ∀ y, y ∈ xs.flatMap a.subtree ↔ ∃ x ∈ xs, a.Within x y := fun y =>
    h.mem_flatMap_subtree_iff hlive
  refine
    { own := get_map_eq_ok_iff.2 ⟨_, hfind hp, if_pos rfl⟩
      members := ?members
      dropped := ?dropped
      rows := ?rows
      owned := ⟨d, get_map_eq_ok_iff.2 ⟨m, hp, hd⟩, ?owned⟩
      parents := ?parents
      owners := ?owners
      data := ?data
      nextId := nextId_mapNodes ..
      live := rfl }
  case members =>
    intro x hx
    obtain ⟨n, hn⟩ := hlive x hx
    exact get_map_eq_ok_iff.2 ⟨_, hfind hn, if_pos hx⟩
  case dropped =>
    intro c hc hcx
    obtain ⟨n, hn, -⟩ := hgone c hc
    exact get_map_eq_ok_iff.2 ⟨_, hfind hn, (if_neg hcx).trans (if_pos hc)⟩
  case rows =>
    intro y cs hyp hy
    obtain ⟨n, hn, rfl⟩ := get_map_eq_ok_iff.1 hy
    exact get_map_eq_ok_iff.2 ⟨_, hfind hn, if_neg hyp⟩
  case owned =>
    intro x hx y hxy
    obtain ⟨n, hn⟩ := hlive x hx
    obtain ⟨z, hz, hzy⟩ := h.within_of_within_gathered hb.toForest hx hn hxy
    obtain ⟨_, k, hpz⟩ := hxs z hz
    obtain ⟨j, hj⟩ := hzy.live hpz.node
    have hdoc := h.not_document_of_mem_subtree hpz.node hpz.not_document
      ((h.mem_subtree_iff hpz.node).2 hzy) hj
    refine get_map_eq_ok_iff.2 ⟨_, hfind hj, ?_⟩
    refine (Node.ownerDocument_eq_owner ?_).trans (if_pos ((hmem y).2 ⟨z, hz, hzy⟩))
    exact hdoc
  case parents =>
    intro y o hy hyg ho
    obtain ⟨n, hn, rfl⟩ := get_map_eq_ok_iff.1 ho
    exact get_map_eq_ok_iff.2 ⟨_, hfind hn, (if_neg hy).trans (if_neg hyg)⟩
  case owners =>
    intro y o hy ho
    obtain ⟨n, hn, rfl⟩ := get_map_eq_ok_iff.1 ho
    have hout : y ∉ xs.flatMap a.subtree := by
      rw [hmem]
      rintro ⟨x, hx, hxy⟩
      exact hy x hx hxy
    refine get_map_eq_ok_iff.2 ⟨_, hfind hn, ?_⟩
    simp only [if_neg hout]
    rfl
  case data =>
    intro y
    rw [gathered, find?_mapNodes, Option.map_map]
    rfl

theorem elementsOf_eq_of_admits (hxs : ∀ x ∈ xs, ∃ m n, a.Admits p x m n) :
    a.elementsOf xs = .ok (xs.filter a.isElementAt) := by
  refine elementsOf_eq fun x hx => ?_
  obtain ⟨_, n, hpx⟩ := hxs x hx
  exact ⟨n, hpx.node⟩

theorem WellFormed.checkAll_eq_ok_iff (h : a.WellFormed) :
    a.checkAll p xs false = .ok () ↔ (∃ m, a.find? p = some m) ∧ a.AdmitsAll p xs := by
  refine ⟨admitsAll_of_checkAll h, ?_⟩
  rintro ⟨⟨m, hm⟩, hall⟩
  have hchecks : xs.forM (fun x => a.checkInsertion p x none) = .ok () := by
    refine forM_eq_ok_iff.2 fun x hx => ?_
    obtain ⟨m, n, hpx⟩ := hall.admits x hx
    exact (checkInsertion_eq_ok_iff h.toForest).2 ⟨m, n, hpx, by simp, hall.spare hx hpx⟩
  have hcount : m.isDocument = true → ¬ 1 < (xs.filter a.isElementAt).length := fun hdoc => by
    have := hall.single m hm hdoc
    omega
  cases hdoc : m.isDocument <;>
    simp_all [checkAll, get_eq_ok hm, elementsOf_eq_of_admits hall.admits]

theorem Forest.checkAll_replacing_eq_ok_iff (h : a.Forest) :
    a.checkAll p xs true = .ok () ↔ ∃ m, a.find? p = some m ∧ (∀ x ∈ xs, ∃ m n, a.Admits p x m n) ∧
      (m.isDocument = true → (xs.filter a.isElementAt).length ≤ 1) := by
  refine ⟨admits_of_checkAll_replacing h, ?_⟩
  rintro ⟨m, hm, hadmits, hsingle⟩
  have hchecks : xs.forM (fun x => a.checkParent p x) = .ok () :=
    forM_eq_ok_iff.2 fun x hx => (checkParent_eq_ok_iff h).2 (hadmits x hx)
  cases hdoc : m.isDocument <;>
    simp_all [checkAll, get_eq_ok hm, elementsOf_eq_of_admits hadmits]

namespace WellFormed

variable (h : a.WellFormed)
include h

theorem gathered_append (hcheck : a.checkAll p xs false = .ok ()) :
    ∃ b, (Edit.append p xs).run a = .ok () b ∧ ∃ cs, a.childNodes p = .ok cs ∧
      a.Gathered p xs [] (cs.filter (· ∉ xs) ++ xs.dedup) b := by
  obtain ⟨⟨m, hm⟩, hall⟩ := admitsAll_of_checkAll h hcheck
  obtain ⟨d, -, hd, -⟩ := h.document_live hm
  obtain ⟨b, hrun, hmoves⟩ := Edit.run_append h hcheck
  obtain ⟨row, hput, rfl⟩ := (hmoves.mono Edit.ahead_none).exists_gathered h hm hd (by simp)
  refine ⟨_, hrun, m.children, get_map_eq_ok_iff.2 ⟨m, hm, rfl⟩, ?_⟩
  rw [← hput.eq_append]
  exact h.gathered_gathered (h.of_changes (hmoves.changes h)) hm hd hall.admits (by simp)

theorem gathered_replaceChildren (hcheck : a.checkAll p xs true = .ok ()) :
    ∃ b, (Edit.replaceChildren p xs).run a = .ok () b ∧ ∃ cs, a.childNodes p = .ok cs ∧
      a.Gathered p xs cs xs.dedup b := by
  obtain ⟨_, -, hadmits, -⟩ := admits_of_checkAll_replacing h.toForest hcheck
  obtain ⟨m, b, hm, hrun, hmoves⟩ := Edit.run_replaceChildren h hcheck
  obtain ⟨d, -, hd, -⟩ := h.document_live hm
  have hcleared := h.unlinkAll m.children
  obtain ⟨row, hput, hb⟩ := (hmoves.mono Edit.ahead_none).exists_gathered hcleared
    (find?_mapNodes_of_live hm) hd (by simp)
  have hchildren : ∀ c ∈ m.children, a.HasParent c p := fun c hc => h.hasParent_of_mem hm hc
  have hout : ∀ x ∈ xs, ∃ n, a.find? x = some n ∧ ¬ a.Within x p := by
    intro x hx
    obtain ⟨_, n, hpx⟩ := hadmits x hx
    exact ⟨n, hpx.node, hpx.not_within⟩
  rw [h.gathered_unlinkAll hchildren hout] at hb
  subst hb
  refine ⟨_, hrun, m.children, get_map_eq_ok_iff.2 ⟨m, hm, rfl⟩, ?_⟩
  obtain rfl : row = xs.dedup := by
    rw [hput.eq_append, filter_notMem_self, List.filter_nil, List.nil_append]
  exact h.gathered_gathered (hcleared.of_changes (hmoves.changes hcleared)) hm hd hadmits hchildren

theorem gathered_prepend (hcheck : a.checkAll p xs false = .ok ()) :
    ∃ b, (Edit.prepend p xs).run a = .ok () b ∧ ∃ cs row, a.childNodes p = .ok cs ∧ cs.Nodup ∧
      Edit.PutAll cs.head? xs cs row ∧ a.Gathered p xs [] row b := by
  obtain ⟨-, hall⟩ := admitsAll_of_checkAll h hcheck
  obtain ⟨m, b, hm, hrun, hmoves⟩ := Edit.run_prepend h hcheck
  obtain ⟨d, -, hd, -⟩ := h.document_live hm
  have hfirst : ∀ c, m.children.head? = some c → a.HasParent c p := fun c hc =>
    h.hasParent_of_mem hm (List.mem_of_mem_head? hc)
  obtain ⟨row, hput, rfl⟩ := hmoves.exists_gathered h hm hd hfirst
  refine ⟨_, hrun, m.children, row, get_map_eq_ok_iff.2 ⟨m, hm, rfl⟩, h.children_nodup hm, hput, ?_⟩
  exact h.gathered_gathered (h.of_changes (hmoves.changes h)) hm hd hall.admits (by simp)

end WellFormed

/-- Nodes are appended, or replace the children, just where their checks allow it.  Of a node that
comes twice the last place counts, and the children that are replaced and do not come again are
left without parent. -/
theorem Reachable.append_replaceChildren_exact (ha : a.Reachable) (p : NodeId)
    (xs : List NodeId) :
    (((∃ b, (Edit.append p xs).run a = .ok () b) ↔ (∃ m, a.find? p = some m) ∧ a.AdmitsAll p xs) ∧
      ∀ b, (Edit.append p xs).run a = .ok () b → ∃ cs, a.childNodes p = .ok cs ∧
        a.Gathered p xs [] (cs.filter (· ∉ xs) ++ xs.dedup) b) ∧
    ((∃ b, (Edit.replaceChildren p xs).run a = .ok () b) ↔
      ∃ m, a.find? p = some m ∧ (∀ x ∈ xs, ∃ m n, a.Admits p x m n) ∧
        (m.isDocument = true → (xs.filter a.isElementAt).length ≤ 1)) ∧
      ∀ b, (Edit.replaceChildren p xs).run a = .ok () b → ∃ cs, a.childNodes p = .ok cs ∧
        a.Gathered p xs cs xs.dedup b := by
  have h := ha.wellFormed
  rw [← h.checkAll_eq_ok_iff, ← h.checkAll_replacing_eq_ok_iff]
  constructor
  · refine Edit.exact_of_check (fun e hcheck => ?_) h.gathered_append
    simp [Edit.append, hcheck]
  · refine Edit.exact_of_check (fun e hcheck => ?_) h.gathered_replaceChildren
    simp [Edit.replaceChildren, hcheck]

theorem append_replaceChildren_exact_twice : ∃ a b b' : Arena, a.Reachable ∧
    (Edit.append 2 [4, 5, 3, 4]).run a = .ok () b ∧
    a.Gathered 2 [4, 5, 3, 4] [] [6, 5, 3, 4] b ∧
    (Edit.replaceChildren 2 [4, 5, 3, 4]).run a = .ok () b' ∧
    a.Gathered 2 [4, 5, 3, 4] [4, 6] [5, 3, 4] b' := by
  have h : (Operation.run [.createDocument, .createDocument, .createElement 0 "a",
      .createElement 1 "b", .createElement 0 "c", .createComment 0 "d", .createElement 0 "e",
      .append 2 [4, 6], .appendChild 4 5] .empty).Reachable := ⟨⟨_, rfl⟩, by decide⟩
  obtain ⟨⟨-, happend⟩, -, hreplace⟩ := h.append_replaceChildren_exact 2 [4, 5, 3, 4]
  obtain ⟨cs, hcs, hgathered⟩ := happend _ rfl
  obtain ⟨cs', hcs', hgathered'⟩ := hreplace _ rfl
  obtain rfl : cs = [4, 6] := Except.ok.inj (hcs.symm.trans rfl)
  obtain rfl : cs' = [4, 6] := Except.ok.inj (hcs'.symm.trans rfl)
  exact ⟨_, _, _, h, rfl, hgathered, rfl, hgathered'⟩

/-- Nodes are put in front just where their checks allow it.  They keep their order unless the first
child is among them and not the last: that one stays where it is, behind all of them. -/
theorem Reachable.prepend_exact (ha : a.Reachable) (p : NodeId) (hxs : xs.Nodup) :
    ((∃ b, (Edit.prepend p xs).run a = .ok () b) ↔ (∃ m, a.find? p = some m) ∧ a.AdmitsAll p xs) ∧
    ∀ b, (Edit.prepend p xs).run a = .ok () b → ∃ cs row, a.childNodes p = .ok cs ∧
      a.Gathered p xs [] row b ∧
      (row = xs ++ cs.filter (· ∉ xs) ↔
        ∀ f, cs.head? = some f → f ∈ xs → xs.getLast? = some f) ∧
      ∀ f zs, cs = f :: zs → row = xs.erase f ++ f :: zs.filter (· ∉ xs) := by
  have h := ha.wellFormed
  rw [← h.checkAll_eq_ok_iff]
  refine Edit.exact_of_check (fun e hcheck => ?_) fun hcheck => ?_
  · simp [Edit.prepend, hcheck]
  · obtain ⟨b, hrun, cs, row, hcs, hnodup, hput, hgathered⟩ := h.gathered_prepend hcheck
    refine ⟨b, hrun, cs, row, hcs, hgathered, hput.eq_append_iff hxs hnodup, ?_⟩
    rintro f zs rfl
    exact hput.eq_front hxs (List.nodup_cons.1 hnodup).1

theorem prepend_exact_first : ∃ a b : Arena, a.Reachable ∧ [4, 3, 2].Nodup ∧
    (Edit.prepend 1 [4, 3, 2]).run a = .ok () b ∧ a.childNodes 1 = .ok [2, 4] ∧
    a.Gathered 1 [4, 3, 2] [] [4, 3, 2] b := by
  have h : (Operation.run [.createDocument, .createElement 0 "a", .createElement 0 "b",
      .createComment 0 "c", .createElement 0 "d", .append 1 [2, 4]] .empty).Reachable :=
    ⟨⟨_, rfl⟩, by decide⟩
  have hxs : [4, 3, 2].Nodup := by decide
  obtain ⟨-, hall⟩ := h.prepend_exact 1 hxs
  obtain ⟨cs, row, hcs, hgathered, hrow, -⟩ := hall _ rfl
  obtain rfl : cs = [2, 4] := Except.ok.inj (hcs.symm.trans rfl)
  obtain rfl : row = [4, 3, 2] := hrow.2 (by decide)
  exact ⟨_, _, h, hxs, rfl, rfl, hgathered⟩

theorem prepend_order_lost : ¬ ∀ (a b : Arena) (p : NodeId) (xs cs : List NodeId), a.Reachable →
    xs.Nodup → (Edit.prepend p xs).run a = .ok () b → a.childNodes p = .ok cs →
    b.childNodes p = .ok (xs ++ cs.filter (· ∉ xs)) := by
  intro hall
  have h : (Operation.run [.createDocument, .createElement 0 "a", .createElement 0 "b",
      .createElement 0 "c", .appendChild 1 2] .empty).Reachable := ⟨⟨_, rfl⟩, by decide⟩
  have hrow := hall _ _ 1 [2, 3] [2] h (by decide) rfl rfl
  cases hrow

end Arena

end DocTree
