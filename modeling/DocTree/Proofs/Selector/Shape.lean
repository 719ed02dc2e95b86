import DocTree.Proofs.Selector.Backward
import DocTree.Proofs.Selector.Builder
import DocTree.Proofs.Selector.Reading

namespace DocTree

namespace Text

def IsSmall (s : List Char) : Prop := ∀ c ∈ s, c.isUpper = false

variable {s t : List Char}

theorem isSmall_lower (s : List Char) : IsSmall (lower s) := by
  intro c hc
  obtain ⟨d, -, rfl⟩ := List.mem_map.1 hc
  exact Char.isUpper_toLower_eq_false d

theorem IsSmall.sublist (h : IsSmall s) (ht : t.Sublist s) : IsSmall t :=
  fun c hc => h c (ht.subset hc)

end Text

namespace Predicate

def names : Predicate → List String
  | .tag name => [name]
  | .id text => [text]
  | .className name => [name]
  | .hasAttribute name => [name]
  | .attribute name _ _ => [name]
  | _ => []

def texts : Predicate → List String
  | .attribute name _ value => [name, value]
  | p => p.names

structure Proper (p : Predicate) : Prop where
  names : ∀ name ∈ p.names, name ≠ ""
  texts : ∀ text ∈ p.texts, Text.IsSmall text.toList

variable {s t : List Char} {p : Predicate}

theorem names_subset_texts (p : Predicate) : p.names ⊆ p.texts := by
  cases p <;> simp [names, texts]

theorem proper_of_texts_eq_nil (h : p.texts = []) : p.Proper where
  names name hname := by
    have hmem := p.names_subset_texts hname
    simp [h] at hmem
  texts text htext := by simp [h] at htext

theorem unescape_sublist (s : List Char) : (unescape s).Sublist s := by
  induction s using unescape.induct with
  | case1 => exact .slnil
  | case2 => exact List.nil_sublist _
  | case3 c s ih => exact (ih.cons_cons c).cons '\\'
  | case4 c s hlast hpair ih =>
    rw [unescape]
    · exact ih.cons_cons c
    · exact hlast
    · exact hpair

theorem unquote_sublist (s : List Char) : (unquote s).Sublist s := by
  refine (unescape_sublist _).trans ?_
  cases s with
  | nil => exact List.Sublist.refl _
  | cons q s =>
    rw [quoted?]
    split
    · exact (List.dropLast_sublist s).cons q
    · exact List.Sublist.refl _

theorem proper_ofAttribute (h : Text.IsSmall s) : (ofAttribute s).Proper := by
  have hname : ∀ u : List Char, u.Sublist s → Text.IsSmall (Text.trim u) := fun u hu =>
    h.sublist ((Text.trim_sublist u).trans hu)
  unfold ofAttribute
  split
  next =>
    simp only
    split
    next => exact proper_of_texts_eq_nil rfl
    next hne =>
      constructor
      · simpa [names] using hne
      · simpa [texts, names] using hname s (List.Sublist.refl s)
  next value hvalue =>
    have hafter : value.Sublist s :=
      (hvalue ▸ List.sublist_cons_self _ _ : value.Sublist _).trans
        (List.dropWhile_sublist (· != '='))
    have hproper : ∀ (u : List Char) (o : AttributeOperator), u.Sublist s →
        (if Text.trim u = [] then never
          else .attribute (.ofList (Text.trim u)) o
            (.ofList (unquote (Text.trim value)))).Proper := by
      intro u o hu
      split
      next => exact proper_of_texts_eq_nil rfl
      next hne =>
        constructor
        · simpa [names] using hne
        · simpa [texts] using ⟨hname u hu, (hname _ hafter).sublist (unquote_sublist _)⟩
    refine hproper _ _ ?_
    split
    · exact List.takeWhile_sublist _
    · exact (List.dropLast_sublist _).trans (List.takeWhile_sublist _)

theorem proper_ofPseudoClass (h : ofPseudoClass s = some p) : p.Proper := by
  have hfixed : ∀ q ∈ fixed, q.2.texts = [] := by decide
  refine proper_of_texts_eq_nil ?_
  unfold ofPseudoClass at h
  split at h
  next q hq =>
    obtain ⟨before, after, hsplit, -⟩ := List.lookup_eq_some_iff.1 hq
    cases h
    exact hfixed (.ofList s, p) (by simp [hsplit])
  next =>
    split at h
    next => cases h; rfl
    next =>
      split at h
      · cases h
      · cases h
        split <;> rfl

theorem proper_ofPart (h : ofPart s = some p) (hne : s ≠ []) (hs : Text.IsSmall s) : p.Proper := by
  have htext : ∀ {u : List Char}, u.Sublist s → u ≠ [] → ∀ {q : Predicate},
      q.names = [.ofList u] → q.texts = [.ofList u] → q.Proper := by
    intro u hu hu' q hnames htexts
    constructor
    · simpa [hnames] using hu'
    · simpa [htexts] using hs.sublist hu
  unfold ofPart at h
  split at h
  next t =>
    cases h
    split
    · exact proper_of_texts_eq_nil rfl
    next ht => exact htext (List.sublist_cons_self _ t) ht rfl rfl
  next t =>
    cases h
    split
    · exact proper_of_texts_eq_nil rfl
    next ht => exact htext (List.sublist_cons_self _ t) ht rfl rfl
  next t =>
    cases h
    split
    · exact proper_ofAttribute (hs.sublist ((List.dropLast_sublist t).cons _))
    · exact proper_of_texts_eq_nil rfl
  next => exact proper_ofPseudoClass h
  next =>
    cases h
    exact htext (List.Sublist.refl s) hne rfl rfl

end Predicate

theorem Nesting.partsFrom_append (n : Nesting) (left s : List Char) :
    (n.partsFrom left s).1 ++ (n.partsFrom left s).2.flatten = s ∧
      ∀ part ∈ (n.partsFrom left s).2, part ≠ [] := by
  induction s generalizing n left with
  | nil => simp [partsFrom]
  | cons c s ih =>
    obtain ⟨hflat, hne⟩ := ih (n.feed .forward left c) (c :: left)
    rw [partsFrom]
    dsimp only
    split
    · exact ⟨by simp [hflat], by simpa using hne⟩
    · exact ⟨by simp [hflat], hne⟩

theorem flatten_splitCompound (s : List Char) : (splitCompound s).flatten = s := by
  cases s with
  | nil => rfl
  | cons c s =>
    simp [splitCompound, (Nesting.partsFrom_append (Nesting.top.feed .forward [] c) [c] s).1]

theorem ne_nil_of_mem_splitCompound {s part : List Char} (h : part ∈ splitCompound s) :
    part ≠ [] := by
  cases s with
  | nil => simp [splitCompound] at h
  | cons c s =>
    rw [splitCompound, List.mem_cons] at h
    rcases h with rfl | h
    · exact List.cons_ne_nil _ _
    · exact (Nesting.partsFrom_append _ _ s).2 part h

namespace Selector

def IsCompound : Selector → Prop
  | .combined .. => False
  | _ => True

/-- Compounds have two parts or more, and a combinator has a compound on its right. -/
def Regular : Selector → Prop
  | .simple p => p.Proper
  | .all parts => 2 ≤ parts.length ∧ ∀ p ∈ parts, p.Proper
  | .combined _ left right => left.Regular ∧ right.Regular ∧ right.IsCompound

variable {s : List Char} {t : Selector}

theorem regular_never : never.Regular := Predicate.proper_of_texts_eq_nil rfl

theorem isCompound_ofCompound (s : List Char) : (ofCompound s).IsCompound := by
  unfold ofCompound
  split <;> trivial

theorem regular_ofCompound (h : Text.IsSmall s) : (ofCompound s).Regular := by
  have hproper : ∀ p ∈ (splitCompound s).filterMap Predicate.ofPart, p.Proper := by
    intro p hp
    obtain ⟨part, hpart, hof⟩ := List.mem_filterMap.1 hp
    refine Predicate.proper_ofPart hof (ne_nil_of_mem_splitCompound hpart) (h.sublist ?_)
    have hsub := List.sublist_flatten_of_mem hpart
    rwa [flatten_splitCompound] at hsub
  unfold ofCompound
  split
  next =>
    refine ⟨by simp [Predicate.names], ?_⟩
    simp [Predicate.texts, Predicate.names, Text.IsSmall]
  next p hp => exact hproper p (by simp [hp])
  next parts hnil hone =>
    refine ⟨?_, hproper⟩
    match hparts : (splitCompound s).filterMap Predicate.ofPart with
    | [] => exact absurd hparts hnil
    | [p] => exact absurd hparts (hone p)
    | _ :: _ :: _ => simp

theorem isCompound_of_parse? (h : parse? s = some t)
    (hs : lastCombinator (Text.trim s) = none) : t.IsCompound := by
  rw [parse?_eq, hs] at h
  split at h
  · cases h
  · cases h
    exact isCompound_ofCompound _

theorem regular_of_parse? (h : parse? s = some t) (hs : Text.IsSmall s) : t.Regular := by
  induction hn : s.length using Nat.strong_induction_on generalizing s t with
  | _ n ih =>
    have htrim : Text.IsSmall (Text.trim s) := hs.sublist (Text.trim_sublist s)
    rw [parse?_eq] at h
    split at h
    · cases h
    split at h
    next =>
      cases h
      exact regular_ofCompound htrim
    next l k r hk =>
      cases h
      obtain ⟨c, hsplit⟩ := lastCombinator_eq_some hk
      have hside : ∀ u : List Char, u.Sublist (Text.trim s) → u.length < s.length →
          ((parse? u).getD never).Regular := by
        intro u hu hlt
        cases hparse : parse? u with
        | none => exact regular_never
        | some v => exact ih u.length (hn ▸ hlt) hparse (htrim.sublist hu) rfl
      have hlength := length_of_lastCombinator hk
      have hle := Text.length_trim_le s
      refine ⟨hside l ?_ (by omega), hside r ?_ (by omega), ?_⟩
      · rw [hsplit]
        exact List.sublist_append_left _ _
      · rw [hsplit]
        exact (List.sublist_cons_self c r).trans (List.sublist_append_right _ _)
      · cases hparse : parse? r with
        | none => trivial
        | some v => exact isCompound_of_parse? hparse (lastCombinator_right hk)

end Selector

def SelectorRow.Fits (rows : List SelectorRow) (i : Nat) : SelectorRow → Prop
  | .simple p => p.Proper
  | .all parts => 2 ≤ parts.length ∧ ∀ k ∈ parts, k < i ∧ ∃ p, rows[k]? = some (.simple p)
  | .any _ => False
  | .combined _ left right =>
    left < i ∧ right < i ∧
      ((∃ p, rows[right]? = some (.simple p)) ∨ ∃ parts, rows[right]? = some (.all parts))

def FitAt (rows : List SelectorRow) (first : Nat) (part : List SelectorRow) : Prop :=
  ∀ (i : Nat) (row : SelectorRow), part[i]? = some row → row.Fits rows (first + i)

variable {rows ps qs : List SelectorRow} {row : SelectorRow} {first : Nat}

theorem FitAt.append (hp : FitAt rows first ps) (hq : FitAt rows (first + ps.length) qs) :
    FitAt rows first (ps ++ qs) := by
  intro i row hrow
  rcases Nat.lt_or_ge i ps.length with hi | hi
  · rw [List.getElem?_append_left hi] at hrow
    exact hp i row hrow
  · rw [List.getElem?_append_right hi] at hrow
    have hfits := hq _ row hrow
    rwa [Nat.add_assoc, Nat.add_sub_cancel' hi] at hfits

theorem fitAt_singleton (h : row.Fits rows first) : FitAt rows first [row] := by
  intro i row' hrow
  match i with
  | 0 =>
    cases hrow
    exact h

theorem Selector.fitAt_rows (s : Selector) (hs : s.Regular)
    (h : RowsAt rows first (s.rows first)) : FitAt rows first (s.rows first) := by
  induction s generalizing first with
  | simple p => exact fitAt_singleton hs
  | all parts =>
    refine FitAt.append ?_ (fitAt_singleton ⟨by simpa using hs.1, fun k hk => ?_⟩)
    · intro i row hrow
      obtain ⟨p, hp, rfl⟩ := by simpa using hrow
      exact hs.2 p (List.mem_of_getElem? hp)
    · obtain ⟨i, hi, rfl⟩ : ∃ i < parts.length, first + i = k := by
        obtain ⟨hge, hlt⟩ := List.mem_range'_1.1 hk
        exact ⟨k - first, by omega, by omega⟩
      refine ⟨by simpa using hi, parts[i], h.left.get ?_⟩
      simp [hi]
  | combined c left right ihl ihr =>
    have hright : RowsAt rows (first + left.size) (right.rows (first + left.size)) := by
      have h' := h.left.right
      rwa [length_rows] at h'
    refine FitAt.append (FitAt.append (ihl hs.1 h.left.left) ?_) (fitAt_singleton ?_)
    · rw [length_rows]
      exact ihr hs.2.1 hright
    · have hlt := left.number_lt first
      have hlt' := right.number_lt (first + left.size)
      refine ⟨by simp; omega, by simp; omega, ?_⟩
      rw [getElem?_rows_number right _ hright]
      cases right with
      | simple p => exact .inl ⟨p, rfl⟩
      | all parts => exact .inr ⟨_, rfl⟩
      | combined _ _ _ => exact absurd hs.2.2 id

namespace SelectorList

theorem fitAt_groupRows {groups : List Selector} (hs : ∀ s ∈ groups, s.Regular)
    (h : RowsAt rows first (groupRows groups first)) :
    FitAt rows first (groupRows groups first) := by
  induction groups generalizing first with
  | nil =>
    intro i row hrow
    cases hrow
  | cons s rest ih =>
    have hrest : RowsAt rows (first + s.size) (groupRows rest (first + s.size)) := by
      have h' := h.right
      rwa [Selector.length_rows] at h'
    refine FitAt.append (s.fitAt_rows (hs s List.mem_cons_self) h.left) ?_
    rw [Selector.length_rows]
    exact ih (fun t ht => hs t (List.mem_cons_of_mem s ht)) hrest

theorem getElem?_rows_root (l : SelectorList) : l.rows[l.root]? = some (.any l.numbers) := by
  have h := (rowsAt_self l.rows).right.head
  rwa [length_groupRows, Nat.zero_add] at h

theorem fits_of_ne_root {l : SelectorList} (hl : ∀ s ∈ l.groups, s.Regular) {i : Nat}
    {row : SelectorRow} (hi : i ≠ l.root) (h : l.rows[i]? = some row) : row.Fits l.rows i := by
  have hlt : i < (groupRows l.groups 0).length := by
    have hle := (List.getElem?_eq_some_iff.1 h).1
    rw [length_rows] at hle
    rw [length_groupRows, ← root]
    omega
  have hfit := fitAt_groupRows hl (rowsAt_self l.rows).left
  rw [rows, List.getElem?_append_left hlt] at h
  have hfits := hfit i row h
  rwa [Nat.zero_add] at hfits

theorem regular_parse (text : String) : ∀ s ∈ (parse text).groups, s.Regular := by
  intro s hs
  obtain ⟨piece, -, hparse⟩ := List.mem_filterMap.1 hs
  exact Selector.regular_of_parse? hparse (Text.isSmall_lower piece)

structure Shaped (l : SelectorList) : Prop where
  root_last : l.rows.length = l.root + 1
  any_root : l.rows[l.root]? = some (.any l.numbers)
  root_of_any : ∀ {i : Nat} {groups}, l.rows[i]? = some (.any groups) → i = l.root
  references_lt : ∀ {i k : Nat} {row : SelectorRow}, l.rows[i]? = some row →
    k ∈ row.references → k < i
  references_once : ∀ k < l.root, (l.rows.flatMap (·.references)).count k = 1
  all_parts : ∀ {i : Nat} {parts}, l.rows[i]? = some (.all parts) →
    2 ≤ parts.length ∧ ∀ k ∈ parts, ∃ p, l.rows[k]? = some (.simple p)
  combined_right : ∀ {i : Nat} {c left right}, l.rows[i]? = some (.combined c left right) →
    (∃ p, l.rows[right]? = some (.simple p)) ∨ ∃ parts, l.rows[right]? = some (.all parts)
  names_ne_empty : ∀ {i : Nat} {p : Predicate}, l.rows[i]? = some (.simple p) →
    ∀ name ∈ p.names, name ≠ ""
  texts_small : ∀ {i : Nat} {p : Predicate}, l.rows[i]? = some (.simple p) →
    ∀ text ∈ p.texts, Text.IsSmall text.toList

theorem lt_of_mem_references {l : SelectorList} (hl : ∀ s ∈ l.groups, s.Regular) {i k : Nat}
    {row : SelectorRow} (h : l.rows[i]? = some row) (hk : k ∈ row.references) : k < i := by
  by_cases hi : i = l.root
  · have hmem : k ∈ l.rows.flatMap (·.references) :=
      List.mem_flatMap.2 ⟨row, List.mem_of_getElem? h, hk⟩
    rw [hi]
    exact List.mem_range.1 (l.perm_references.mem_iff.1 hmem)
  · have hfits := fits_of_ne_root hl hi h
    cases row with
    | simple p => cases hk
    | all parts => exact (hfits.2 k hk).1
    | any groups => exact hfits.elim
    | combined c left right =>
      rcases List.mem_pair.1 hk with rfl | rfl
      · exact hfits.1
      · exact hfits.2.1

/-- The rows that are built from a text, well-formed or not. -/
theorem shaped_parse (text : String) :
    RowBuilder.parse text = ((parse text).root, (parse text).rows.toArray) ∧
      (parse text).Shaped := by
  have hl := regular_parse text
  have hfits : ∀ {i : Nat} {row : SelectorRow}, (parse text).rows[i]? = some row →
      (∀ groups, row ≠ .any groups) → row.Fits (parse text).rows i := by
    intro i row h hany
    refine fits_of_ne_root hl (fun hi => ?_) h
    rw [hi, getElem?_rows_root] at h
    exact hany _ (Option.some.inj h).symm
  refine ⟨RowBuilder.parse_eq text, ?_⟩
  exact {
    root_last := length_rows _
    any_root := getElem?_rows_root _
    root_of_any := fun h => by_contra fun hi => fits_of_ne_root hl hi h
    references_lt := lt_of_mem_references hl
    references_once := fun k hk => by
      rw [(parse text).perm_references.count_eq]
      exact List.count_eq_one_of_mem List.nodup_range (List.mem_range.2 hk)
    all_parts := fun h => by
      obtain ⟨hlength, hparts⟩ := hfits h nofun
      exact ⟨hlength, fun k hk => (hparts k hk).2⟩
    combined_right := fun h => (hfits h nofun).2.2
    names_ne_empty := fun h => (hfits h nofun).names
    texts_small := fun h => (hfits h nofun).texts }

end SelectorList

end DocTree
