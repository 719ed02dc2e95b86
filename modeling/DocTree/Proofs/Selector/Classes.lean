import DocTree.Proofs.Selector.Queries
import DocTree.Proofs.Selector.RoundTrip

namespace DocTree

namespace Text

variable {c : Char} {s t : List Char}

theorem cut_ne_nil (p : Char → Bool) (s : List Char) : cut p s ≠ [] := by
  cases s with
  | nil => exact List.cons_ne_nil _ _
  | cons c s =>
    rw [cut]
    split
    · exact List.cons_ne_nil _ _
    · rw [ne_eq, List.modifyHead_eq_nil_iff]
      exact cut_ne_nil p s

theorem cut_append {p : Char → Bool} (hc : p c = true) (s t : List Char) :
    cut p (s ++ c :: t) = cut p s ++ cut p t := by
  induction s with
  | nil => simp [cut, hc]
  | cons d s ih =>
    obtain ⟨u, us, hu⟩ := List.exists_cons_of_ne_nil (cut_ne_nil p s)
    by_cases hd : p d = true <;> simp [cut, hd, ih, hu]

theorem cut_eq_singleton {p : Char → Bool} (hs : ∀ c ∈ s, p c = false) : cut p s = [s] := by
  induction s with
  | nil => rfl
  | cons c s ih =>
    obtain ⟨hc, hs⟩ := List.forall_mem_cons.1 hs
    simp [cut, hc, ih hs]

theorem words_append_blank (hc : isAsciiBlank c = true) (s t : List Char) :
    words (s ++ c :: t) = words s ++ words t := by
  rw [words, cut_append hc, List.filter_append, words, words]

theorem words_blanks_append (hs : ∀ c ∈ s, isAsciiBlank c = true) (t : List Char) :
    words (s ++ t) = words t := by
  induction s with
  | nil => rfl
  | cons c s ih =>
    obtain ⟨hc, hs⟩ := List.forall_mem_cons.1 hs
    rw [List.cons_append, words_cons_blank hc, ih hs]

theorem IsName.words_eq (h : IsName s) : words s = [s] := by
  have hcut : cut isAsciiBlank s = [s] := cut_eq_singleton fun c hc => Bool.eq_false_iff.2 fun hb =>
    Bool.eq_false_iff.1 (isBlank_of_isNameChar c (h.2 c hc)) (isBlank_of_isAsciiBlank hb)
  simp [words, hcut, h.1]

theorem IsName.words_append_blanks (h : IsName s) (ht : ∀ c ∈ t, isAsciiBlank c = true) :
    words (s ++ t) = [s] := by
  cases t with
  | nil => rw [List.append_nil, h.words_eq]
  | cons c t =>
    obtain ⟨hc, ht⟩ := List.forall_mem_cons.1 ht
    have hnone := words_blanks_append ht []
    rw [List.append_nil] at hnone
    rw [words_append_blank hc, h.words_eq, hnone]
    rfl

end Text

namespace Written

structure ClassNames where
  before : List Blank
  first : Name
  rest : List (Blank × List Blank × Name)
  after : List Blank

namespace ClassNames

def names (k : ClassNames) : List Name := k.first :: k.rest.map (·.2.2)

def print (k : ClassNames) : List Char :=
  blanks k.before ++ k.first.val ++
    k.rest.flatMap (fun (b, bs, name) => b.val :: (blanks bs ++ name.val)) ++ blanks k.after

def dotted (k : ClassNames) : List Char := k.names.flatMap fun name => '.' :: name.val

def compound (k : ClassNames) : Compound :=
  .untagged (.className k.first) (k.rest.map fun e => .className e.2.2)

theorem words_print (k : ClassNames) : Text.words k.print = k.names.map (·.val) := by
  obtain ⟨before, first, rest, after⟩ := k
  simp only [print, names, List.append_assoc]
  rw [Text.words_blanks_append fun c => isAsciiBlank_of_mem_blanks]
  induction rest generalizing first with
  | nil => exact first.2.words_append_blanks fun c => isAsciiBlank_of_mem_blanks
  | cons e rest ih =>
    obtain ⟨b, bs, name⟩ := e
    have htail := ih name
    simp only [List.flatMap_cons, List.cons_append, List.append_assoc, List.map_cons] at htail ⊢
    rw [Text.words_append_blank b.2, first.2.words_eq,
      Text.words_blanks_append fun c => isAsciiBlank_of_mem_blanks, htail]
    rfl

theorem classTokens_print (k : ClassNames) :
    classTokens (.ofList k.print) = k.names.map fun name => .ofList (Name.lower name).val := by
  rw [classTokens, String.toList_ofList, k.words_print, List.map_map]
  rfl

theorem print_compound (k : ClassNames) : k.compound.print = k.dotted := by
  simp [compound, Compound.print, Part.print, dotted, names, List.flatMap_map,
    List.flatMap_cons]

theorem predicates_lower_compound (k : ClassNames) : k.compound.lower.predicates =
    k.names.map fun name => .className (.ofList (Name.lower name).val) := by
  simp [compound, Compound.lower, Compound.predicates, Part.lower, Part.predicate?, names,
    Function.comp_def, List.filterMap_eq_map']

end ClassNames

theorem Compound.parse_eq (c : Compound) :
    SelectorList.parse (.ofList c.print) = ⟨[c.lower.selector]⟩ := by
  have hpieces := pieces_print ⟨[], .compound c, []⟩ [] []
  simp only [Written.print, List.map_cons, List.map_nil, List.intercalate_singleton, Group.print,
    Chain.print, blanks, List.nil_append, List.append_nil] at hpieces
  rw [SelectorList.parse, String.toList_ofList, splitTop, hpieces]
  simp [c.lower_print, c.lower.parse?_print]

theorem Compound.means_iff (c : Compound) {a : Arena} {x : NodeId} :
    c.selector.Means a x ↔ ∀ p ∈ c.predicates, p.Means a x := by
  rw [selector]
  split
  next h => simp [h, Selector.Means, Predicate.Means]
  next h => simp [h, Selector.Means]
  next hnil _ => exact and_iff_right hnil

end Written

namespace Arena

variable {a : Arena} {r x : NodeId} {n : Node} {xs : List NodeId} {wanted : List String}

def hasClassesAt (a : Arena) (wanted : List String) (x : NodeId) : Bool :=
  (a.find? x).any (hasClasses wanted)

theorem hasClassesAt_iff : a.hasClassesAt wanted x = true ↔
    a.isElementAt x = true ∧ ∀ name ∈ wanted, (Predicate.className name).Means a x := by
  constructor
  · intro h
    obtain ⟨n, hx, hn⟩ := (Option.any_eq_true ..).1 h
    obtain ⟨e, he, hall⟩ := (Option.any_eq_true ..).1 hn
    have hel : a.ElementAt x e := ⟨n, hx, element?_eq_some_iff.1 he⟩
    refine ⟨isElementAt_of_elementAt hel, fun name hname => ⟨e, hel, ?_⟩⟩
    exact List.contains_iff_mem.1 (List.all_eq_true.1 hall name hname)
  · rintro ⟨hel, hall⟩
    obtain ⟨e, n, hx, he⟩ := exists_elementAt hel
    have hclasses : hasClasses wanted n = true := by
      refine (Option.any_eq_true ..).2 ⟨e, element?_eq_some_iff.2 he, ?_⟩
      refine List.all_eq_true.2 fun name hname => List.contains_iff_mem.2 ?_
      obtain ⟨f, hf, hmem⟩ := hall name hname
      rwa [ElementAt.unique ⟨n, hx, he⟩ hf]
    exact (Option.any_eq_true ..).2 ⟨n, hx, hclasses⟩

theorem Forest.filter_nodes_eq (h : a.Forest) (p : Node → Bool)
    (hxs : ∀ x ∈ xs, ∃ n, a.find? x = some n) :
    (do return ((← xs.mapM a.get).filter p).map (·.id)) =
      Except.ok (ε := Error) (xs.filter fun x => (a.find? x).any p) := by
  suffices hnodes : ∃ ns, xs.mapM a.get = .ok ns ∧
      (ns.filter p).map (·.id) = xs.filter fun x => (a.find? x).any p by
    obtain ⟨ns, hns, hids⟩ := hnodes
    rw [hns, ← hids]
    rfl
  induction xs with
  | nil => exact ⟨[], rfl, rfl⟩
  | cons x xs ih =>
    obtain ⟨⟨n, hx⟩, hxs⟩ := List.forall_mem_cons.1 hxs
    obtain ⟨ns, hns, hids⟩ := ih hxs
    refine ⟨n :: ns, by simp [List.mapM_cons, get_eq_ok hx, hns], ?_⟩
    rw [List.filter_cons, List.filter_cons, ← hids, hx, Option.any_some]
    split
    · rw [List.map_cons, h.id_eq hx]
    · rfl

theorem WellFormed.elementsByClass_eq (h : a.WellFormed) (hr : a.find? r = some n)
    (names : String) :
    a.elementsByClass r names = .ok (if classTokens names = [] then [] else
      ((a.subtree r).filter (· != r)).filter (a.hasClassesAt (classTokens names))) := by
  rw [elementsByClass]
  by_cases hnil : classTokens names = []
  · simp [hnil, get_eq_ok hr]
  have hlive : ∀ x ∈ (a.subtree r).filter (· != r), ∃ n, a.find? x = some n := fun x hx =>
    h.live_of_mem_subtree hr x (List.mem_of_mem_filter hx)
  rw [h.descendants_eq_filter hr, if_neg (by simpa using hnil), if_neg hnil]
  exact h.filter_nodes_eq _ hlive

/-- A lookup of class names finds what the compound of the class selectors finds, in the same order,
but for the start. -/
theorem Reachable.elementsByClass_eq_queryAll (ha : a.Reachable) (hr : a.find? r = some n)
    (k : Written.ClassNames) : ∃ found, a.queryAll r (.parse (.ofList k.dotted)) = .ok found ∧
      a.elementsByClass r (.ofList k.print) = .ok (found.filter (· != r)) := by
  classical
  have h := ha.wellFormed
  refine ⟨_, h.queryAll_eq _ hr, ?_⟩
  have hne : classTokens (.ofList k.print) ≠ [] := by
    rw [k.classTokens_print]
    exact List.cons_ne_nil _ _
  have hfilter : ∀ y, a.hasClassesAt (classTokens (.ofList k.print)) y =
      decide ((SelectorList.parse (.ofList k.dotted)).Selected a y) := by
    intro y
    rw [← Bool.coe_iff_coe, decide_eq_true_iff, hasClassesAt_iff, k.classTokens_print,
      ← k.print_compound, k.compound.parse_eq, SelectorList.Selected, SelectorList.Means]
    simp only [List.mem_singleton, exists_eq_left, Written.Compound.means_iff,
      k.predicates_lower_compound, List.forall_mem_map]
  rw [h.elementsByClass_eq hr, if_neg hne, List.filter_filter, List.filter_filter]
  simp only [hfilter, Bool.and_comm]

theorem elementsByClass_eq_queryAll_capitals : ∃ a : Arena, a.Reachable ∧
    (∃ n, a.find? 1 = some n) ∧ a.queryAll 1 (.parse ".B.a.b") = .ok [1, 2] ∧
      a.elementsByClass 1 " B\ta \nb" = .ok [2] := by
  have h : (Operation.run [.createDocument, .createElement 0 "p", .createElement 0 "q",
      .createElement 0 "r", .append 1 [2, 3], .setAttribute 1 "class" (.string "a b"),
      .setAttribute 2 "class" (.string "A c\tb"), .setAttribute 3 "class" (.string "ab")]
      .empty).Reachable := ⟨⟨_, rfl⟩, by decide +kernel⟩
  obtain ⟨found, hquery, hclass⟩ := h.elementsByClass_eq_queryAll (r := 1)
    (Option.some_get (by decide +kernel)).symm ⟨[⟨' ', rfl⟩], ⟨['B'], by decide⟩,
    [(⟨'\t', rfl⟩, [], ⟨['a'], by decide⟩), (⟨' ', rfl⟩, [⟨'\n', rfl⟩], ⟨['b'], by decide⟩)], []⟩
  obtain rfl : found = [1, 2] := Except.ok.inj (hquery.symm.trans (by decide +kernel))
  exact ⟨_, h, ⟨_, (Option.some_get (by decide +kernel)).symm⟩, hquery, hclass⟩

end Arena

end DocTree
