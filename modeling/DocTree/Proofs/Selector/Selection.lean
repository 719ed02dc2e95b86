import DocTree.Proofs.Edit.Operation
import DocTree.Proofs.Selector.Meaning

namespace DocTree

open Matcher

def Selector.Selected (a : Arena) (s : Selector) (x : NodeId) : Prop :=
  a.isElementAt x = true ∧ s.Means a x

def Predicate.Selected (a : Arena) (p : Predicate) (x : NodeId) : Prop :=
  a.isElementAt x = true ∧ p.Means a x

def Selector.truths (a : Arena) : Selector → List (NodeId → Prop)
  | .simple p => [p.Selected a]
  | .all parts => parts.map (·.Selected a) ++ [(Selector.all parts).Selected a]
  | .combined c left right =>
    left.truths a ++ right.truths a ++ [(Selector.combined c left right).Selected a]

def Truth.Places (t : Truth) (first : Nat) (ps : List (NodeId → Prop)) : Prop :=
  ∀ i P, ps[i]? = some P → t (first + i) = P

variable {a : Arena} {t : Truth} {x y p : NodeId} {n : Node} {first : Nat}
  {ps qs : List (NodeId → Prop)}

namespace Truth

theorem Places.left (h : t.Places first (ps ++ qs)) : t.Places first ps := by
  intro i P hi
  apply h
  rw [List.getElem?_append_left (List.getElem?_eq_some_iff.1 hi).1, hi]

theorem Places.right (h : t.Places first (ps ++ qs)) : t.Places (first + ps.length) qs := by
  intro i P hi
  rw [Nat.add_assoc]
  apply h
  rw [List.getElem?_append_right (Nat.le_add_right ..), Nat.add_sub_cancel_left, hi]

theorem Places.last {P : NodeId → Prop} (h : t.Places first (ps ++ [P])) :
    t (first + ps.length) = P :=
  h.right 0 P rfl

end Truth

theorem Selector.length_truths (a : Arena) (s : Selector) : (s.truths a).length = s.size := by
  induction s with
  | simple p => rfl
  | all parts => simp [truths, size]
  | combined c left right ihl ihr => simp [truths, size, ihl, ihr, Nat.add_assoc]

theorem Predicate.answers (h : a.Forest) (hx : a.find? x = some n) (p : Predicate) :
    Answers t (onElement a x fun e => p.holds a x e) (p.Selected a x) := by
  rw [Predicate.Selected, Arena.isElementAt_eq hx]
  apply answers_onElement hx
  intro e he
  exact answers_lift (p.decides h ⟨n, hx, he⟩)

theorem Predicate.answers_allHold (h : a.Forest) (hx : a.find? x = some n) {parts : List Predicate}
    (ht : t.Places first (parts.map (·.Selected a))) :
    Answers t (Predicate.allHold a x parts first) (∀ p ∈ parts, p.Selected a x) := by
  induction parts generalizing first with
  | nil => exact answers_pure (by simp)
  | cons p parts ih =>
    have hhead : t first = p.Selected a := ht 0 _ rfl
    have ht : t.Places first ([p.Selected a] ++ parts.map (·.Selected a)) := ht
    have htail : t.Places (first + 1) (parts.map (·.Selected a)) := ht.right
    exact (answers_and (answers_remember hhead (p.answers h hx)) fun _ => ih htail).congr (by simp)

theorem exists_ancestor_iff {ps : List NodeId} {P : NodeId → Prop} (h : a.Forest)
    (hx : a.find? x = some n) (hps : a.Lineage x ps) :
    (∃ y ∈ ps.filter a.isElementAt, P y) ↔
      ∃ y, a.isElementAt y = true ∧ a.contains y x = .ok true ∧ P y := by
  refine exists_congr fun y => ?_
  rw [List.mem_filter, and_comm (b := a.isElementAt y = true), and_assoc]
  refine and_congr_right fun hy => and_congr_left fun _ => ?_
  obtain ⟨m, hm, -⟩ := Arena.isElementAt_iff.1 hy
  obtain ⟨b, hb, habove⟩ := h.contains_decides hm hx
  rw [hb, Except.ok.injEq, habove]
  constructor
  · exact fun hmem => ⟨ps, hps, hmem⟩
  · rintro ⟨qs, hqs, hmem⟩
    rwa [hps.unique hqs]

theorem answers_descendant (h : a.WellFormed) (hx : a.find? x = some n) {l : NodeId → Matcher Bool}
    {P : NodeId → Prop}
    (hl : ∀ y, a.isElementAt y = true → Answers t (l y) (a.isElementAt y = true ∧ P y)) :
    Answers t (anyAlong a.parentElement l (a.nextId + 1) x)
      (∃ y, a.isElementAt y = true ∧ a.contains y x = .ok true ∧ P y) := by
  obtain ⟨ps, hps⟩ := h.lineage hx
  have hclimb := h.climb_parentElement hps (Nat.lt_succ_of_lt hps.length_lt)
  refine (answers_anyAlong hclimb fun y hy => hl y (List.mem_filter.1 hy).2).congr ?_
  rw [← exists_ancestor_iff h.toForest hx hps]
  refine exists_congr fun y => and_congr_right fun hy => ?_
  simp [(List.mem_filter.1 hy).2]

theorem answers_child (h : a.Forest) (hx : a.find? x = some n) {l r : NodeId → Matcher Bool}
    {P : NodeId → Prop} {Q : Prop}
    (hl : ∀ y, a.isElementAt y = true → Answers t (l y) (a.isElementAt y = true ∧ P y))
    (hr : Answers t (r x) Q) :
    Answers t (do
        match ← a.parentElement x with
        | some p => if ← l p then r x else return false
        | none => return false)
      ((∃ y, a.isElementAt y = true ∧ a.HasParent x y ∧ P y) ∧ Q) := by
  cases hp : n.parent with
  | none =>
    apply answers_bind_lift (Arena.parentElement_root hx hp)
    refine answers_pure ?_
    constructor
    · simp
    · rintro ⟨⟨y, -, hy, -⟩, -⟩
      exact absurd hp (hy.ne_root hx)
  | some p =>
    have hxp : a.HasParent x p := ⟨n, hx, hp⟩
    apply answers_bind_lift (h.parentElement_eq hxp)
    have hparent : (∃ y, a.isElementAt y = true ∧ a.HasParent x y ∧ P y) ↔
        a.isElementAt p = true ∧ P p := by
      constructor
      · rintro ⟨y, hy, hxy, hP⟩
        obtain rfl := hxp.unique hxy
        exact ⟨hy, hP⟩
      · rintro ⟨hy, hP⟩
        exact ⟨p, hy, hxp, hP⟩
    rw [hparent]
    cases he : a.isElementAt p with
    | true => simpa [he] using answers_and (hl p he) fun _ => hr
    | false => exact answers_pure (by simp)

theorem exists_earlierElements (h : a.Forest) (hx : a.find? x = some n) :
    ∃ ys, a.earlierElements x = .ok ys ∧
      ∀ y, y ∈ ys ↔ a.isElementAt y = true ∧ a.Precedes y x := by
  cases hp : n.parent with
  | none =>
    refine ⟨[], by simp [Arena.earlierElements, Arena.around_root hx hp, Arena.elementsOf], ?_⟩
    intro y
    constructor
    · simp
    · rintro ⟨-, p, m, before, after, hxp, -⟩
      exact absurd hp (hxp.ne_root hx)
  | some p =>
    have hxp : a.HasParent x p := ⟨n, hx, hp⟩
    obtain ⟨m, before, after, hm, hsplit⟩ := h.exists_split hxp
    refine ⟨_, h.earlierElements_eq hxp hm hsplit, fun y => ?_⟩
    rw [List.mem_filter, List.mem_reverse, and_comm]
    refine and_congr_right fun _ => ?_
    constructor
    · exact fun hy => ⟨p, m, before, after, hxp, hm, hsplit, hy⟩
    · rintro ⟨q, k, before', after', hq, hk, hsplit', hy⟩
      obtain rfl := hxp.unique hq
      obtain rfl := Option.eq_some_unique hm hk
      obtain ⟨hbefore, hafter⟩ := h.notMem_of_split hm hsplit
      obtain ⟨rfl, -⟩ :=
        (List.append_cons_inj_of_notMem hbefore hafter).1 (hsplit.symm.trans hsplit')
      exact hy

theorem answers_sibling (h : a.Forest) (hx : a.find? x = some n) {l : NodeId → Matcher Bool}
    {P : NodeId → Prop}
    (hl : ∀ y, a.isElementAt y = true → Answers t (l y) (a.isElementAt y = true ∧ P y)) :
    Answers t (do any l (← a.earlierElements x))
      (∃ y, a.isElementAt y = true ∧ a.Precedes y x ∧ P y) := by
  obtain ⟨ys, hys, hmem⟩ := exists_earlierElements h hx
  apply answers_bind_lift hys
  refine (answers_any fun y hy => hl y ((hmem y).1 hy).1).congr (exists_congr fun y => ?_)
  rw [hmem]
  tauto

theorem answers_all (h : a.Forest) (hx : a.find? x = some n) (hel : a.isElementAt x = true)
    {parts : List Predicate} (ht : t.Places first (parts.map (·.Selected a))) :
    Answers t
      (do if parts.isEmpty then return false else Predicate.allHold a x parts first)
      (parts ≠ [] ∧ ∀ p ∈ parts, p.Means a x) := by
  cases parts with
  | nil => exact answers_pure (by simp)
  | cons p parts =>
    refine (Predicate.answers_allHold h hx ht).congr ?_
    simp [Predicate.Selected, hel]

theorem Selector.answers (h : a.WellFormed) (s : Selector) (hx : a.find? x = some n)
    (ht : t.Places first (s.truths a)) : Answers t (s.selects a first x) (s.Selected a x) := by
  induction s generalizing first x n with
  | simple p => exact answers_remember (ht 0 _ rfl) (p.answers h.toForest hx)
  | all parts =>
    have hroot := ht.last
    rw [List.length_map] at hroot
    apply answers_remember hroot
    rw [Selected, Arena.isElementAt_eq hx]
    apply answers_onElement hx
    intro e he
    exact answers_all h.toForest hx (Arena.isElementAt_of_elementAt ⟨n, hx, he⟩) ht.left
  | combined c left right ihl ihr =>
    -- The rows of the left part come first, then those of the right part, then the row of both.
    have hroot := ht.last
    rw [List.length_append, length_truths, length_truths, ← Nat.add_assoc] at hroot
    have hleft : t.Places first (left.truths a) := ht.left.left
    have hright : t.Places (first + left.size) (right.truths a) :=
      length_truths a left ▸ ht.left.right
    have hr := ihr hx hright
    have hl : ∀ y, a.isElementAt y = true →
        Answers t (left.selects a first y) (a.isElementAt y = true ∧ left.Means a y) := by
      intro y hy
      obtain ⟨m, hm, -⟩ := Arena.isElementAt_iff.1 hy
      exact ihl hm hleft
    apply answers_remember hroot
    rw [Selected, Arena.isElementAt_eq hx]
    apply answers_onElement hx
    intro e he
    have hel := Arena.isElementAt_of_elementAt ⟨n, hx, he⟩
    rw [Selected, and_iff_right hel] at hr
    cases c with
    | descendant => exact answers_and hr fun _ => answers_descendant h hx hl
    | child => exact answers_child h.toForest hx hl hr
    | sibling => exact answers_and hr fun _ => answers_sibling h.toForest hx hl

namespace SelectorList

def Selected (a : Arena) (l : SelectorList) (x : NodeId) : Prop :=
  a.isElementAt x = true ∧ l.Means a x

def truths (a : Arena) (l : SelectorList) : List (NodeId → Prop) :=
  l.groups.flatMap (·.truths a) ++ [l.Selected a]

def truth (a : Arena) (l : SelectorList) : Truth :=
  fun k => ((l.truths a)[k]?).getD fun _ => False

theorem length_flatMap_truths (a : Arena) (groups : List Selector) :
    (groups.flatMap (·.truths a)).length = groupSize groups := by
  induction groups with
  | nil => rfl
  | cons s rest ih => simp [groupSize, ih, Selector.length_truths]

theorem places_truth (a : Arena) (l : SelectorList) : (l.truth a).Places 0 (l.truths a) := by
  intro i P hi
  rw [Nat.zero_add, truth, hi, Option.getD_some]

theorem answers_someSelects (h : a.WellFormed) (hx : a.find? x = some n) {groups : List Selector}
    (ht : t.Places first (groups.flatMap (·.truths a))) :
    Answers t (someSelects a x groups first) (∃ s ∈ groups, s.Selected a x) := by
  induction groups generalizing first with
  | nil => exact answers_pure (by simp)
  | cons s rest ih =>
    have hrest : t.Places (first + s.size) (rest.flatMap (·.truths a)) :=
      Selector.length_truths a s ▸ ht.right
    exact (answers_or (s.answers h hx ht.left) fun _ => ih hrest).congr (by simp)

theorem answers (h : a.WellFormed) (l : SelectorList) (hx : a.find? x = some n) :
    Answers (l.truth a) (l.selects a x) (l.Selected a x) := by
  have hroot := (places_truth a l).last
  rw [Nat.zero_add, length_flatMap_truths] at hroot
  apply answers_remember hroot
  rw [Selected, Arena.isElementAt_eq hx]
  apply answers_onElement hx
  intro e he
  have hel := Arena.isElementAt_of_elementAt ⟨n, hx, he⟩
  refine (answers_someSelects h hx (places_truth a l).left).congr ?_
  simp [Means, Selector.Selected, hel]

end SelectorList

theorem Matcher.Answers.decides {m : Matcher Bool} {P : Prop} (hm : Answers t m P) :
    Decides m.fresh P := by
  obtain ⟨b, memo, hrun, -, hb⟩ := hm ∅ (Memo.sound_empty t)
  exact ⟨b, by simp [fresh, hrun], hb⟩

theorem Arena.WellFormed.decides_isSelected (h : a.WellFormed) (l : SelectorList)
    (hx : a.find? x = some n) : Decides (a.isSelected x l) (l.Selected a x) :=
  (l.answers h hx).decides

/-- What a selector text selects is what its groups mean. -/
theorem SelectorList.decides_parse (h : a.Reachable) (text : String) (hx : a.find? x = some n) :
    Decides (a.isSelected x (.parse text))
      (a.isElementAt x = true ∧ (SelectorList.parse text).Means a x) :=
  h.wellFormed.decides_isSelected (.parse text) hx

theorem SelectorList.decides_parse_empty : ∃ a : Arena, a.Reachable ∧
    Decides (a.isSelected 1 (.parse "A:empty"))
      (a.isElementAt 1 = true ∧ (SelectorList.parse "A:empty").Means a 1) ∧
    Decides (a.isSelected 1 (.parse "a a"))
      (a.isElementAt 1 = true ∧ (SelectorList.parse "a a").Means a 1) ∧
    a.isSelected 1 (.parse "A:empty") = .ok true ∧ (SelectorList.parse "A:empty").Means a 1 ∧
    a.isSelected 1 (.parse "a a") = .ok false ∧ ¬ (SelectorList.parse "a a").Means a 1 := by
  have h : (Operation.run [.createDocument, .createElement 0 "a", .createComment 0 "c",
    .appendChild 1 2] .empty).Reachable := ⟨⟨_, rfl⟩, by decide⟩
  have hempty := decides_parse h "A:empty" (x := 1)
    (n := ⟨1, none, [2], some 0, .element ⟨"a", .empty⟩⟩) rfl
  have hbelow := decides_parse h "a a" (x := 1)
    (n := ⟨1, none, [2], some 0, .element ⟨"a", .empty⟩⟩) rfl
  refine ⟨_, h, hempty, hbelow, by decide +kernel, ?_, by decide +kernel, fun hmeans => ?_⟩
  · exact (hempty.eq_true_iff.1 (by decide +kernel)).2
  · exact absurd (hbelow.eq_true_iff.2 ⟨by decide, hmeans⟩) (by decide +kernel)

end DocTree
