import DocTree.Markup.Path
import DocTree.Proofs.Markup.Step
import DocTree.Proofs.Selector.Queries

namespace DocTree.Markup

open Text (IsName Tight)

/-- The text is a path to `x`, and what it reads as; the path of the parent element comes first. -/
inductive Pathed (a : Arena) : NodeId → List Char → Selector → Prop
  | top : a.ElementAt x e → (∀ p, a.HasParent x p → a.isElementAt p = false) →
      Pathed a x (stepText (Text.lower e.name.toList) none)
        (stepSelector (Text.lower e.name.toList) none)
  | step : a.ElementAt x e → a.HasParent x p → a.isElementAt p = true → a.find? p = some m →
      m.children.filter a.isElementAt = before ++ x :: after → Pathed a p s l →
      Pathed a x (s ++ ' ' :: '>' :: ' ' ::
          stepText (Text.lower e.name.toList) (some (before.length + 1)))
        (.combined .child l (stepSelector (Text.lower e.name.toList) (some (before.length + 1))))

variable {a : Arena} {x y p r : NodeId} {e : Element} {m n : Node} {l : Selector}
  {name s t : List Char} {ps : List NodeId}

theorem exists_pathed (h : a.Forest) (hx : a.isElementAt x = true) : ∃ s l, Pathed a x s l := by
  obtain ⟨n, hn, -⟩ := Arena.isElementAt_iff.1 hx
  revert hx
  refine h.ascend (P := fun x => a.isElementAt x = true → ∃ s l, Pathed a x s l) ?_ ?_ hn
  · intro x n hx hroot hel
    obtain ⟨e, he⟩ := Arena.exists_elementAt hel
    exact ⟨_, _, .top he fun p hp => absurd hroot (hp.ne_root hx)⟩
  · intro x p hp ih hel
    obtain ⟨e, he⟩ := Arena.exists_elementAt hel
    cases hpel : a.isElementAt p with
    | false =>
      refine ⟨_, _, .top he fun q hq => ?_⟩
      rw [← hp.unique hq, hpel]
    | true =>
      obtain ⟨s, l, hs⟩ := ih hpel
      obtain ⟨m, hm, hmem⟩ := h.parent_live hp
      obtain ⟨before, after, hsplit⟩ := List.append_of_mem (List.mem_filter.2 ⟨hmem, hel⟩)
      exact ⟨_, _, .step he hp hpel hm hsplit hs⟩

theorem Pathed.elementAt (h : Pathed a x s l) : ∃ e, a.ElementAt x e := by
  cases h with
  | top he _ => exact ⟨_, he⟩
  | step he _ _ _ _ _ => exact ⟨_, he⟩

theorem ofList_stepText_root (name : List Char) :
    String.ofList (stepText name none) = .ofList name ++ ":root" := by
  have hroot : String.ofList (':' :: placeText none) = ":root" := by decide
  rw [stepText, String.ofList_append, hroot]

theorem ofList_stepText_nth (name : List Char) (k : Nat) :
    String.ofList (stepText name (some k)) =
      .ofList name ++ ":nth-child(" ++ .ofList (Integer.digits k) ++ ")" := by
  have hopen : String.ofList (':' :: ("nth-child".toList ++ ['('])) = ":nth-child(" := by
    rw [← String.toList_inj, String.toList_ofList]
    decide
  have hclose : String.ofList [')'] = ")" := by decide
  have hsplit : stepText name (some k) =
      name ++ (':' :: ("nth-child".toList ++ ['('])) ++ Integer.digits k ++ [')'] := by
    rw [stepText, placeText_some]
    simp only [List.append_assoc, List.cons_append, List.nil_append]
  rw [hsplit, String.ofList_append, String.ofList_append, String.ofList_append, hopen, hclose]

theorem ofList_step (s t : List Char) :
    String.ofList (s ++ ' ' :: '>' :: ' ' :: t) = .ofList s ++ " > " ++ .ofList t := by
  have hsign : String.ofList [' ', '>', ' '] = " > " := by decide
  rw [← hsign, ← String.ofList_append, ← String.ofList_append, List.append_assoc]
  rfl

theorem localName_eq (he : a.ElementAt x e) : a.localName x = .ok e.name := by
  obtain ⟨n, hn, he⟩ := he
  simp [Arena.localName, Arena.element, Arena.get_eq_ok hn, Node.element?, he]

theorem parentElement_eq_none (h : a.Forest) (he : a.ElementAt x e)
    (htop : ∀ p, a.HasParent x p → a.isElementAt p = false) : a.parentElement x = .ok none := by
  obtain ⟨n, hn, -⟩ := he
  cases hp : n.parent with
  | none => exact Arena.parentElement_root hn hp
  | some p =>
    rw [h.parentElement_eq ⟨n, hn, hp⟩, htop p ⟨n, hn, hp⟩]
    rfl

theorem siblingElements_of_element (h : a.Forest) (hx : a.HasParent x p)
    (hp : a.isElementAt p = true) (hm : a.find? p = some m) :
    a.siblingElements x = .ok (m.children.filter a.isElementAt) := by
  obtain ⟨n, hn, hnp⟩ := hx
  rw [Arena.isElementAt_eq hm] at hp
  simp [Arena.siblingElements, Arena.get_eq_ok hn, hnp, Arena.get_eq_ok hm, hp, h.children_eq hm]

theorem Pathed.pathSteps_eq (h : a.WellFormed) (hs : Pathed a x s l) (hps : a.Lineage x ps) :
    ∃ steps, pathSteps a (x :: ps.filter a.isElementAt) = .ok steps ∧ steps ≠ [] ∧
      " > ".intercalate steps.reverse = .ofList s := by
  induction hs generalizing ps with
  | @top x e he htop =>
    have hnone := parentElement_eq_none h.toForest he htop
    have hnil : ps.filter a.isElementAt = [] := by
      have hclimb := h.climb_parentElement hps (Nat.lt_succ_self _)
      rw [Arena.climb, hnone] at hclimb
      exact (Except.ok.inj hclimb).symm
    refine ⟨[.ofList (stepText (Text.lower e.name.toList) none)], ?_, by simp, by simp⟩
    rw [hnil, ofList_stepText_root]
    simp [pathSteps, pathStep, localName_eq he, hnone, Text.lowerString]
  | @step x e p m before after s l he hx hpel hm hsplit hs ih =>
    cases hps with
    | root hn hroot => exact absurd hroot (hx.ne_root hn)
    | @under _ q qs hq hqs =>
      obtain rfl := hx.unique hq
      obtain ⟨steps, hsteps, hne, htext⟩ := ih hqs
      have hparent : a.parentElement x = .ok (some p) := by rw [h.parentElement_eq hx, if_pos hpel]
      have hnodup : (before ++ x :: after).Nodup := hsplit ▸ (h.children_nodup hm).filter _
      have hbefore : x ∉ before := fun hmem =>
        (List.nodup_append.1 hnodup).2.2 x hmem x (by simp) rfl
      have hplace := Arena.idxOf?_split hbefore after
      have hsiblings := siblingElements_of_element h.toForest hx hpel hm
      rw [hsplit] at hsiblings
      have hstep : pathStep a x =
          .ok (.ofList (stepText (Text.lower e.name.toList) (some (before.length + 1)))) := by
        rw [ofList_stepText_nth]
        simp [pathStep, localName_eq he, hparent, hsiblings, hplace, Text.lowerString]
      refine ⟨.ofList (stepText (Text.lower e.name.toList) (some (before.length + 1))) :: steps,
        ?_, by simp, ?_⟩
      · rw [List.filter_cons_of_pos hpel, pathSteps, hstep]
        simp [hsteps]
      · rw [List.reverse_cons, String.intercalate_append_of_ne_nil (by simpa using hne) (by simp),
          htext, String.intercalate_singleton, ofList_step]

theorem Pathed.path_eq (h : a.WellFormed) (hs : Pathed a x s l) : path a x = .ok (.ofList s) := by
  obtain ⟨e, he⟩ := hs.elementAt
  obtain ⟨n, hn, hel⟩ := Arena.isElementAt_iff.1 (Arena.isElementAt_of_elementAt he)
  obtain ⟨ps, hps⟩ := h.lineage hn
  obtain ⟨steps, hsteps, -, htext⟩ := hs.pathSteps_eq h hps
  simp [path, Arena.get_eq_ok hn, hel, h.ancestorElements_eq hps, hsteps, htext]

def PlainNames (a : Arena) (x : NodeId) : Prop :=
  ∀ y e, a.Within y x → a.ElementAt y e → IsName e.name.toList

theorem PlainNames.parent (h : a.Forest) (hx : a.HasParent x p) (hnames : PlainNames a x) :
    PlainNames a p :=
  fun y e hy => hnames y e (hy.trans (.inr (h.above_of_hasParent hx)))

theorem PlainNames.self (hnames : PlainNames a x) (he : a.ElementAt x e) :
    IsName (Text.lower e.name.toList) :=
  (hnames x e (.refl a x) he).lower

theorem place_lt (h : a.Forest) (hbound : a.nextId ≤ 2 ^ 32) {before after : List NodeId}
    (hp : a.find? p = some m) (hsplit : m.children.filter a.isElementAt = before ++ x :: after) :
    before.length + 1 < 2 ^ 63 := by
  have hle : m.children.length ≤ 2 ^ 32 := Nat.le_trans (h.length_children_le hp) hbound
  have hfilter := (List.filter_sublist (p := a.isElementAt) (l := m.children)).length_le
  rw [hsplit, List.length_append, List.length_cons] at hfilter
  omega

theorem Pathed.parse?_eq (h : a.Forest) (hbound : a.nextId ≤ 2 ^ 32) (hs : Pathed a x s l)
    (hnames : PlainNames a x) : Tight s ∧ Selector.parse? s = some l := by
  induction hs with
  | top he _ =>
    have hname := hnames.self he
    have htight := tight_stepText hname none
    refine ⟨htight, ?_⟩
    rw [Selector.parse?_compound htight (closed_stepText hname none),
      ofCompound_stepText hname (by simp)]
  | @step x e p m before after s l he hx _ hm hsplit _ ih =>
    obtain ⟨htight, hparse⟩ := ih (hnames.parent h hx)
    have hname := hnames.self he
    have hplace := place_lt h hbound hm hsplit
    have hstep := tight_stepText hname (some (before.length + 1))
    have hclosed := closed_stepText hname (some (before.length + 1))
    refine ⟨by simpa using htight.append hstep [' ', '>', ' '], ?_⟩
    rw [Selector.parse?_child htight hstep hclosed, hparse, Selector.parse?_compound hstep hclosed,
      ofCompound_stepText hname (by simpa using hplace)]
    rfl

theorem Pathed.clean (h : a.Forest) (hs : Pathed a x s l) (hnames : PlainNames a x) :
    ',' ∉ s ∧ Text.lower s = s := by
  induction hs with
  | top he _ =>
    exact ⟨comma_notMem_stepText (hnames.self he) none, lower_stepText (Text.lower_lower _) none⟩
  | @step x e p m before after s l he hx _ _ _ _ ih =>
    obtain ⟨hcomma, hlower⟩ := ih (hnames.parent h hx)
    have hstep := comma_notMem_stepText (hnames.self he) (some (before.length + 1))
    have hsmall := lower_stepText (Text.lower_lower e.name.toList) (some (before.length + 1))
    constructor
    · simp [hcomma, hstep]
    · rw [Text.lower] at hlower hsmall ⊢
      rw [List.map_append, List.map_cons, List.map_cons, List.map_cons, hlower, hsmall]
      rfl

theorem Pathed.parse_eq (h : a.Forest) (hbound : a.nextId ≤ 2 ^ 32) (hs : Pathed a x s l)
    (hnames : PlainNames a x) : SelectorList.parse (.ofList s) = ⟨[l]⟩ := by
  obtain ⟨hcomma, hlower⟩ := hs.clean h hnames
  rw [SelectorList.parse, String.toList_ofList, Nesting.splitTop_eq_singleton hcomma]
  rw [List.filterMap_cons_some (hlower.symm ▸ (hs.parse?_eq h hbound hnames).2),
    List.filterMap_nil]

/-- An element without parent element is the root of its tree or the one element below a document. -/
theorem eq_root_or_under (h : a.WellFormed) (hr : a.find? r = some n) (hrx : a.Within r x)
    (htop : ∀ p, a.HasParent x p → a.isElementAt p = false) :
    x = r ∨ a.HasParent x r ∧ n.isDocument = true := by
  rcases hrx with hrx | hrx
  · exact .inl hrx
  obtain ⟨ps, hps, hmem⟩ := id hrx
  cases hps with
  | root => simp at hmem
  | @under _ p qs hp _ =>
    obtain ⟨m, hm, hdoc⟩ := h.document_of_hasParent hp (htop p hp)
    rcases (h.above_iff hp).1 hrx with rfl | hrp
    · obtain rfl := Option.eq_some_unique hr hm
      exact .inr ⟨hp, hdoc⟩
    · exact absurd hrp (Arena.not_above_root hm (h.document_parent hm hdoc))

theorem eq_of_top (h : a.WellFormed) (hr : a.find? r = some n) (hrx : a.Within r x)
    (hry : a.Within r y) (hx : a.isElementAt x = true)
    (hy : a.isElementAt y = true) (hxtop : ∀ p, a.HasParent x p → a.isElementAt p = false)
    (hytop : ∀ p, a.HasParent y p → a.isElementAt p = false) : x = y := by
  have hrdoc : n.isDocument = true → a.isElementAt r = false := by
    intro hdoc
    simp_all [Arena.isElementAt_eq hr, Node.isDocument, Node.isElement]
  rcases eq_root_or_under h hr hrx hxtop with rfl | ⟨hxr, hdoc⟩
  · rcases eq_root_or_under h hr hry hytop with rfl | ⟨-, hdoc⟩
    · rfl
    · exact absurd (hx.symm.trans (hrdoc hdoc)) (by decide)
  · rcases eq_root_or_under h hr hry hytop with rfl | ⟨hyr, -⟩
    · exact absurd (hy.symm.trans (hrdoc hdoc)) (by decide)
    · exact h.document_element hr hdoc ((h.mem_children_iff hr).2 hxr)
        ((h.mem_children_iff hr).2 hyr) hx hy

theorem means_stepSelector (name : List Char) (place : Option Nat) :
    (stepSelector name place).Means a y ↔
      (Predicate.tag (.ofList name)).Means a y ∧ (placePredicate place).Means a y := by
  simp [stepSelector, Selector.Means]

theorem means_tag (he : a.ElementAt x e) (hname : IsName (Text.lower e.name.toList)) :
    (Predicate.tag (.ofList (Text.lower e.name.toList))).Means a x := by
  refine .inr ⟨?_, ?_⟩
  · intro hempty
    exact hname.1 (by simpa using congrArg String.toList hempty)
  · rw [Arena.isNamed_eq he, Text.sameIgnoringCase_iff, String.toList_ofList, Text.lower_lower]

theorem among_iff (hx : a.HasParent x p) (hp : a.isElementAt p = true) (hm : a.find? p = some m)
    {ys : List NodeId} : a.Among x ys ↔ ys = m.children.filter a.isElementAt := by
  constructor
  · rintro ⟨n, q, k, hn, hq, hk, -, rfl⟩
    obtain rfl := hx.unique ⟨n, hn, hq⟩
    obtain rfl := Option.eq_some_unique hm hk
    rfl
  · rintro rfl
    obtain ⟨n, hn, hnp⟩ := hx
    exact ⟨n, p, m, hn, hnp, hm, .inl (Arena.isElementAt_eq hm ▸ hp), rfl⟩

theorem Pathed.selected_iff (h : a.WellFormed) (hs : Pathed a x s l) (hnames : PlainNames a x)
    (hr : a.find? r = some n) (hroot : n.parent = none) (hrx : a.Within r x) :
    ∀ y, a.Within r y → (l.Selected a y ↔ y = x) := by
  induction hs with
  | @top x e he htop =>
    intro y hry
    have hel := Arena.isElementAt_of_elementAt he
    rw [Selector.Selected, means_stepSelector]
    constructor
    · rintro ⟨hyel, -, hyroot⟩
      refine eq_of_top h hr hry hrx hyel hel (fun p hp => ?_) htop
      obtain ⟨m, hm, -⟩ := h.parent_live hp
      have hdoc := hyroot p m hp hm
      simp_all [Arena.isElementAt_eq hm, Node.isDocument, Node.isElement]
    · rintro rfl
      refine ⟨hel, means_tag he (hnames.self he), fun p m hp hm => ?_⟩
      obtain ⟨k, hk, hdoc⟩ := h.document_of_hasParent hp (htop p hp)
      obtain rfl := Option.eq_some_unique hm hk
      exact hdoc
  | @step x e p m before after s l he hx hpel hm hsplit hs ih =>
    intro y hry
    have hel := Arena.isElementAt_of_elementAt he
    have hup : ∀ {z q}, a.HasParent z q → a.Within r z → a.Within r q := fun hz hrz =>
      ((h.within_iff_of_hasParent hz).1 hrz).resolve_left fun hzr => hz.ne_root (hzr ▸ hr) hroot
    have ih := ih (hnames.parent h.toForest hx) (hup hx hrx)
    rw [Selector.Selected, Selector.Means, means_stepSelector]
    constructor
    · rintro ⟨-, ⟨q, hqel, hyq, hq⟩, -, ys, hys, before', after', hsplit', hindex⟩
      obtain rfl := (ih q (hup hyq hry)).1 ⟨hqel, hq⟩
      have hlen : before'.length + 1 = before.length + 1 := (NthPattern.matchesIndex_place false _ _).1 hindex
      rw [(among_iff hyq hpel hm).1 hys, hsplit] at hsplit'
      have heq := (List.append_inj hsplit' (by omega)).2
      exact (List.cons.inj heq).1.symm
    · rintro rfl
      refine ⟨hel, ⟨p, hpel, hx, ((ih p (hup hx hrx)).2 rfl).2⟩, means_tag he (hnames.self he), ?_⟩
      refine ⟨_, (among_iff hx hpel hm).2 rfl, before, after, hsplit, ?_⟩
      exact (NthPattern.matchesIndex_place false _ _).2 rfl

/-- The path of an element finds it, and nothing else, in the whole tree it stands in. -/
theorem queryAll_path (h : a.Reachable) (hx : a.isElementAt x = true) (hnames : PlainNames a x) :
    ∃ text r, path a x = .ok text ∧ a.root x = .ok r ∧ a.queryAll r (.parse text) = .ok [x] := by
  have hwf := h.wellFormed
  obtain ⟨s, l, hs⟩ := exists_pathed hwf.toForest hx
  obtain ⟨n, hn, -⟩ := Arena.isElementAt_iff.1 hx
  obtain ⟨ps, hps⟩ := hwf.lineage hn
  obtain ⟨r, m, hroot, hr, hm, hrx⟩ := hps.root_spec
  refine ⟨.ofList s, r, hs.path_eq hwf, hroot, ?_⟩
  rw [hs.parse_eq hwf.toForest h.numbered hnames]
  apply hwf.queryAll_eq_singleton _ hr hrx
  intro y hry
  rw [← hs.selected_iff hwf hnames hr hm hrx y hry]
  simp [SelectorList.Selected, SelectorList.Means, Selector.Selected]

theorem queryAll_path_line : ∃ a : Arena, a.Reachable ∧
    ∃ text r, path a 4 = .ok text ∧ a.root 4 = .ok r ∧ a.queryAll r (.parse text) = .ok [4] := by
  refine ⟨Operation.run [.createDocument, .createElement 0 "Root", .createElement 0 "line",
    .createComment 0 "c", .createElement 0 "line", .append 1 [2, 3, 4], .appendChild 0 1] .empty,
    ⟨⟨_, rfl⟩, by decide⟩, ?_⟩
  refine queryAll_path ⟨⟨_, rfl⟩, by decide⟩ (by decide) ?_
  rintro y e - ⟨n, hn, he⟩
  have hy : y < 5 := Arena.find?_lt hn
  rcases y with _ | _ | _ | _ | _ | y
  · cases hn
    cases he
  · cases hn
    cases he
    decide
  · cases hn
    cases he
    decide
  · cases hn
    cases he
  · cases hn
    cases he
    decide
  · exact absurd hy (Nat.not_lt.2 (Nat.le_add_left 5 y))

end DocTree.Markup
