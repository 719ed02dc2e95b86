import DocTree.Proofs.Arena.Siblings
import DocTree.Proofs.Selector.Remember
import DocTree.Query

namespace DocTree

namespace Arena

def ElementAt (a : Arena) (x : NodeId) (e : Element) : Prop :=
  ∃ n, a.find? x = some n ∧ n.data = .element e

def isNamed (a : Arena) (name : String) (x : NodeId) : Bool :=
  (a.find? x).any fun n => n.element?.any fun e => Text.sameIgnoringCase e.name name

def Precedes (a : Arena) (y x : NodeId) : Prop :=
  ∃ p m before after, a.HasParent x p ∧ a.find? p = some m ∧
    m.children = before ++ x :: after ∧ y ∈ before

end Arena

/-- The pattern matches the place of `x` in the list, which is counted from 1. -/
def NthPattern.Ranks (p : NthPattern) (ys : List NodeId) (x : NodeId) : Prop :=
  ∃ before after, ys = before ++ x :: after ∧
    p.matchesIndex (if p.reverse then after.length + 1 else before.length + 1) = true

/-- An empty text is at the start, at the end and inside of none. -/
def AttributeOperator.Relates : AttributeOperator → List Char → List Char → Prop
  | .equals, actual, value => actual = value
  | .startsWith, actual, value => value ≠ [] ∧ value <+: actual
  | .endsWith, actual, value => value ≠ [] ∧ value <:+ actual
  | .contains, actual, value => value ≠ [] ∧ value <:+: actual
  | .containsWord, actual, value => value ∈ Text.words actual
  | .containsPrefix, actual, value =>
    ∃ w ∈ Text.words actual, w = value ∨ value ++ ['-'] <+: w

def Predicate.Means (a : Arena) (x : NodeId) : Predicate → Prop
  | .tag name => name = "*" ∨ name ≠ "" ∧ a.isNamed name x = true
  | .id text => ∃ e, a.ElementAt x e ∧ Text.sameIgnoringCase (e.attributes.text "id") text = true
  | .className name => ∃ e, a.ElementAt x e ∧ name ∈ classTokens (e.attributes.text "class")
  | .hasAttribute name =>
    ∃ e v, a.ElementAt x e ∧ e.attributes.getIgnoringCase? name = some v
  | .attribute name operator value =>
    ∃ e v, a.ElementAt x e ∧ e.attributes.getIgnoringCase? name = some v ∧
      operator.Relates v.print value.toList
  | .root => ∀ p m, a.HasParent x p → a.find? p = some m → m.isDocument = true
  | .empty => ∀ c, a.HasParent c x → a.isElementAt c = false
  | .onlyChild => ∀ p c, a.HasParent x p → a.HasParent c p → a.isElementAt c = true → c = x
  | .onlyOfType => ∃ e ys, a.ElementAt x e ∧ a.Among x ys ∧ ys.filter (a.isNamed e.name) = [x]
  | .nthChild pattern => ∃ ys, a.Among x ys ∧ pattern.Ranks ys x
  | .nthOfType pattern =>
    ∃ e ys, a.ElementAt x e ∧ a.Among x ys ∧ pattern.Ranks (ys.filter (a.isNamed e.name)) x
  | .never => False

def Selector.Means (a : Arena) : Selector → NodeId → Prop
  | .simple p, x => p.Means a x
  | .all parts, x => parts ≠ [] ∧ ∀ p ∈ parts, p.Means a x
  | .combined .descendant left right, x =>
    right.Means a x ∧ ∃ y, a.isElementAt y = true ∧ a.contains y x = .ok true ∧ left.Means a y
  | .combined .child left right, x =>
    (∃ y, a.isElementAt y = true ∧ a.HasParent x y ∧ left.Means a y) ∧ right.Means a x
  | .combined .sibling left right, x =>
    right.Means a x ∧ ∃ y, a.isElementAt y = true ∧ a.Precedes y x ∧ left.Means a y

def SelectorList.Means (a : Arena) (l : SelectorList) (x : NodeId) : Prop :=
  ∃ s ∈ l.groups, s.Means a x

variable {a : Arena} {x y p : NodeId} {m n : Node} {e : Element} {ys : List NodeId}

namespace Arena

theorem ElementAt.unique {f : Element} (he : a.ElementAt x e) (hf : a.ElementAt x f) : e = f := by
  obtain ⟨n, hn, he⟩ := he
  obtain ⟨m, hm, hf⟩ := hf
  simp_all

theorem ElementAt.exists_iff {P : Element → Prop} (he : a.ElementAt x e) :
    (∃ f, a.ElementAt x f ∧ P f) ↔ P e :=
  ⟨fun ⟨_, hf, hP⟩ => he.unique hf ▸ hP, fun hP => ⟨e, he, hP⟩⟩

theorem isElement_iff : n.isElement = true ↔ ∃ e, n.data = .element e := by
  cases h : n.data <;> simp [Node.isElement, Node.kind, NodeData.kind, h]

theorem isNamed_eq (he : a.ElementAt x e) (name : String) :
    a.isNamed name x = Text.sameIgnoringCase e.name name := by
  obtain ⟨n, hn, he⟩ := he
  simp [isNamed, hn, Node.element?, he]

theorem isNamed_self (he : a.ElementAt x e) : a.isNamed e.name x = true := by
  rw [isNamed_eq he]
  exact beq_self_eq_true _

theorem isElementAt_of_elementAt (he : a.ElementAt x e) : a.isElementAt x = true := by
  obtain ⟨n, hn, he⟩ := he
  rw [isElementAt_eq hn]
  exact isElement_iff.2 ⟨e, he⟩

theorem exists_elementAt (hx : a.isElementAt x = true) : ∃ e, a.ElementAt x e := by
  obtain ⟨n, hn, hel⟩ := isElementAt_iff.1 hx
  obtain ⟨e, he⟩ := isElement_iff.1 hel
  exact ⟨e, n, hn, he⟩

theorem ofType_eq {name : String} (hys : ∀ y ∈ ys, a.isElementAt y = true) :
    a.ofType name ys = .ok (ys.filter (a.isNamed name)) := by
  induction ys with
  | nil => rfl
  | cons y ys ih =>
    obtain ⟨e, n, hn, he⟩ := exists_elementAt (hys y (by simp))
    have hlocal : a.localName y = .ok e.name := by
      simp [localName, element, get_eq_ok hn, Node.element?, he]
    have hrest := ih fun z hz => hys z (List.mem_cons_of_mem _ hz)
    rw [List.filter_cons, isNamed_eq ⟨n, hn, he⟩]
    cases hs : Text.sameIgnoringCase e.name name <;> simp [ofType, hlocal, hrest, hs]

theorem Among.isElementAt (hys : a.Among x ys) : ∀ y ∈ ys, a.isElementAt y = true := by
  obtain ⟨n, p, m, -, -, -, -, rfl⟩ := hys
  exact fun y hy => (List.mem_filter.1 hy).2

theorem Among.nodup (h : a.Forest) (hys : a.Among x ys) : ys.Nodup := by
  obtain ⟨n, p, m, -, -, hm, -, rfl⟩ := hys
  exact (h.children_nodup hm).filter _

theorem Among.unique {zs : List NodeId} (hys : a.Among x ys) (hzs : a.Among x zs) : ys = zs := by
  obtain ⟨n, p, m, hn, hp, hm, -, rfl⟩ := hys
  obtain ⟨n', p', m', hn', hp', hm', -, rfl⟩ := hzs
  simp_all

theorem Among.mem (h : a.Forest) (he : a.isElementAt x = true) (hys : a.Among x ys) : x ∈ ys := by
  obtain ⟨n, p, m, hn, hp, hm, -, rfl⟩ := hys
  exact List.mem_filter.2 ⟨(h.mem_children_iff hm).2 ⟨n, hn, hp⟩, he⟩

end Arena

theorem Text.occursIn_iff {part s : List Char} : Text.occursIn part s = true ↔ part <:+: s := by
  induction s with
  | nil => simp [Text.occursIn]
  | cons c s ih => simp [Text.occursIn, List.infix_cons_iff, ih]

theorem AttributeOperator.holds_iff (o : AttributeOperator) (actual value : List Char) :
    o.holds actual value = true ↔ o.Relates actual value := by
  cases o <;> simp [holds, Relates, Text.occursIn_iff]

theorem NthPattern.matchesIndex_place (reverse : Bool) (j k : Nat) :
    matchesIndex ⟨0, (k : Int), reverse⟩ (j : Int) = true ↔ j = k := by
  simp only [matchesIndex, if_true, beq_iff_eq]
  omega

theorem NthPattern.selects_split {before after : List NodeId} (p : NthPattern)
    (hx : x ∉ before) : p.selects (before ++ x :: after) x =
      p.matchesIndex (if p.reverse then after.length + 1 else before.length + 1) := by
  simp only [selects, indexOf?, Arena.idxOf?_split hx, List.length_append, List.length_cons]
  cases p.reverse <;> simp

theorem NthPattern.selects_iff (p : NthPattern) (hys : ys.Nodup) :
    p.selects ys x = true ↔ p.Ranks ys x := by
  have hsplit : ∀ before after, ys = before ++ x :: after → x ∉ before := by
    rintro before after rfl hx
    exact (List.nodup_append.1 hys).2.2 x hx x (by simp) rfl
  constructor
  · intro h
    cases hx : ys.idxOf? x with
    | none => simp [selects, indexOf?, hx] at h
    | some i =>
      have hmem : x ∈ ys := by
        by_contra hmem
        simp [List.idxOf?_eq_none_iff.2 hmem] at hx
      obtain ⟨before, after, heq⟩ := List.append_of_mem hmem
      rw [heq, selects_split p (hsplit before after heq)] at h
      exact ⟨before, after, heq, h⟩
  · rintro ⟨before, after, heq, h⟩
    rwa [heq, selects_split p (hsplit before after heq)]

theorem decides_siblings (h : a.Forest) (hx : a.find? x = some n) {f : List NodeId → Bool}
    {P : List NodeId → Prop} (hf : ∀ ys, a.Among x ys → (f ys = true ↔ P ys))
    (hnil : f [] = false) :
    Decides (return f (← a.siblingElements x)) (∃ ys, a.Among x ys ∧ P ys) := by
  obtain ⟨ys, hys, hamong⟩ := h.siblingElements_eq hx
  refine ⟨f ys, by simp [hys], ?_⟩
  rcases hamong with hamong | ⟨rfl, hnone⟩
  · rw [hf ys hamong]
    constructor
    · exact fun hp => ⟨ys, hamong, hp⟩
    · rintro ⟨zs, hzs, hp⟩
      rwa [hamong.unique hzs]
  · simp [hnil, hnone]

theorem siblingsOfType_eq (h : a.Forest) (hx : a.find? x = some n) (name : String) :
    a.siblingsOfType x name = (return (← a.siblingElements x).filter (a.isNamed name)) := by
  obtain ⟨ys, hys, hamong⟩ := h.siblingElements_eq hx
  rw [Arena.siblingsOfType, hys]
  apply Arena.ofType_eq
  rcases hamong with hamong | ⟨rfl, -⟩
  · exact hamong.isElementAt
  · simp

theorem decides_onlyChild (h : a.Forest) (hx : a.find? x = some n) :
    Decides (do return (← a.previousElementSibling x).isNone && (← a.nextElementSibling x).isNone)
      (∀ p c, a.HasParent x p → a.HasParent c p → a.isElementAt c = true → c = x) := by
  cases hp : n.parent with
  | none =>
    have hnone : ∀ p, ¬ a.HasParent x p := fun p hxp => hxp.ne_root hx hp
    refine ⟨true, ?_, by simp [hnone]⟩
    simp [Arena.previousElementSibling, Arena.nextElementSibling, Arena.earlierElements,
      Arena.laterElements, Arena.around_root hx hp, Arena.elementsOf]
  | some p =>
    have hxp : a.HasParent x p := ⟨n, hx, hp⟩
    obtain ⟨m, before, after, hm, hsplit⟩ := h.exists_split hxp
    refine ⟨(before.reverse.filter a.isElementAt).head?.isNone &&
      (after.filter a.isElementAt).head?.isNone, ?_, ?_⟩
    · simp [Arena.previousElementSibling, Arena.nextElementSibling,
        h.earlierElements_eq hxp hm hsplit, h.laterElements_eq hxp hm hsplit]
    have hchild : ∀ c, a.HasParent c p ↔ c ∈ before ∨ c = x ∨ c ∈ after := by
      intro c
      rw [← h.mem_children_iff hm, hsplit]
      simp
    obtain ⟨hbefore, hafter⟩ := h.notMem_of_split hm hsplit
    simp only [Bool.and_eq_true, Option.isNone_iff_eq_none, List.head?_eq_none_iff,
      List.filter_eq_nil_iff, List.mem_reverse]
    constructor
    · rintro ⟨hb, ha⟩ q c hq hc hel
      obtain rfl := hxp.unique hq
      rcases (hchild c).1 hc with hc | rfl | hc
      · exact absurd hel (hb c hc)
      · rfl
      · exact absurd hel (ha c hc)
    · intro hall
      refine ⟨fun c hc hel => hbefore ?_, fun c hc hel => hafter ?_⟩
      · exact hall p c hxp ((hchild c).2 (.inl hc)) hel ▸ hc
      · exact hall p c hxp ((hchild c).2 (.inr (.inr hc))) hel ▸ hc

theorem decides_empty (h : a.Forest) (hx : a.find? x = some n) :
    Decides (do return (← a.childElementCount x) == 0)
      (∀ c, a.HasParent c x → a.isElementAt c = false) := by
  refine ⟨(n.children.filter a.isElementAt).length == 0, by simp [h.childElementCount_eq hx], ?_⟩
  simp [List.filter_eq_nil_iff, h.mem_children_iff hx]

theorem decides_root (h : a.Forest) (hx : a.find? x = some n) :
    Decides (do
        match ← a.parent x with
        | none => return true
        | some p => return (← a.get p).isDocument)
      (∀ p m, a.HasParent x p → a.find? p = some m → m.isDocument = true) := by
  cases hp : n.parent with
  | none =>
    have hnone : ∀ p, ¬ a.HasParent x p := fun p hxp => hxp.ne_root hx hp
    exact ⟨true, by simp [Arena.parent_eq_ok hx, hp], by simp [hnone]⟩
  | some p =>
    have hxp : a.HasParent x p := ⟨n, hx, hp⟩
    obtain ⟨m, hm, -⟩ := h.parent_live hxp
    refine ⟨m.isDocument, by simp [Arena.parent_eq_ok hx, hp, Arena.get_eq_ok hm], ?_⟩
    constructor
    · intro hdoc q k hq hk
      obtain rfl := hxp.unique hq
      obtain rfl := Option.eq_some_unique hm hk
      exact hdoc
    · exact fun hall => hall p m hxp hm

theorem Predicate.decides (h : a.Forest) (he : a.ElementAt x e) (p : Predicate) :
    Decides (p.holds a x e) (p.Means a x) := by
  have hlive := he
  obtain ⟨n, hx, -⟩ := hlive
  match p with
  | .tag name => exact ⟨_, rfl, by simp [Means, Arena.isNamed_eq he]⟩
  | .id text => exact ⟨_, rfl, by simp [Means, he.exists_iff]⟩
  | .className name => exact ⟨_, rfl, by simp [Means, he.exists_iff]⟩
  | .hasAttribute name => exact ⟨_, rfl, by simp [Means, he.exists_iff, Option.isSome_iff_exists]⟩
  | .attribute name operator value =>
    exact ⟨_, rfl, by
      simp [Means, he.exists_iff, Option.any_eq_true, AttributeOperator.holds_iff]⟩
  | .root => exact decides_root h hx
  | .empty => exact decides_empty h hx
  | .onlyChild => exact decides_onlyChild h hx
  | .onlyOfType =>
    have hcount : ∀ ys, a.Among x ys →
        (((ys.filter (a.isNamed e.name)).length == 1) = true ↔
          ys.filter (a.isNamed e.name) = [x]) := by
      intro ys hys
      have hmem : x ∈ ys.filter (a.isNamed e.name) :=
        List.mem_filter.2 ⟨hys.mem h (Arena.isElementAt_of_elementAt he), Arena.isNamed_self he⟩
      rw [beq_iff_eq, List.length_eq_one_iff]
      constructor
      · rintro ⟨y, hy⟩
        rw [hy, List.mem_singleton] at hmem
        rw [hy, hmem]
      · exact fun hy => ⟨x, hy⟩
    simpa [holds, Means, siblingsOfType_eq h hx, he.exists_iff] using
      decides_siblings h hx hcount rfl
  | .nthChild pattern =>
    exact decides_siblings h hx (fun ys hys => pattern.selects_iff (hys.nodup h)) rfl
  | .nthOfType pattern =>
    have hranks : ∀ ys, a.Among x ys →
        (pattern.selects (ys.filter (a.isNamed e.name)) x = true ↔
          pattern.Ranks (ys.filter (a.isNamed e.name)) x) := fun ys hys =>
      pattern.selects_iff ((hys.nodup h).filter _)
    simpa [holds, Means, siblingsOfType_eq h hx, he.exists_iff] using
      decides_siblings h hx hranks rfl
  | .never => exact ⟨false, rfl, by simp [Means]⟩

end DocTree
