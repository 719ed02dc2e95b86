import DocTree.Proofs.Selector.Queries

namespace DocTree

def Selector.hasNever : Selector → Bool
  | .simple p => p == .never
  | .all parts => parts.contains .never
  | .combined _ left right => left.hasNever || right.hasNever

def SelectorList.understood (l : SelectorList) : SelectorList := ⟨l.groups.filter (!·.hasNever)⟩

variable {a : Arena} {x : NodeId} {n : Node}

namespace Selector

theorem Means.sides {c : Combinator} {left right : Selector}
    (h : (combined c left right).Means a x) : (∃ y, left.Means a y) ∧ right.Means a x := by
  cases c with
  | descendant =>
    obtain ⟨hright, y, -, -, hleft⟩ := h
    exact ⟨⟨y, hleft⟩, hright⟩
  | child =>
    obtain ⟨⟨y, -, -, hleft⟩, hright⟩ := h
    exact ⟨⟨y, hleft⟩, hright⟩
  | sibling =>
    obtain ⟨hright, y, -, -, hleft⟩ := h
    exact ⟨⟨y, hleft⟩, hright⟩

theorem Means.hasNever_eq_false {s : Selector} (h : s.Means a x) : s.hasNever = false := by
  induction s generalizing x with
  | simple p =>
    refine beq_false_of_ne ?_
    rintro rfl
    exact h
  | all parts =>
    rw [hasNever, ← Bool.not_eq_true, List.contains_iff_mem]
    exact fun hmem => h.2 .never hmem
  | combined c left right ihl ihr =>
    obtain ⟨⟨y, hleft⟩, hright⟩ := h.sides
    rw [hasNever, ihl hleft, ihr hright, Bool.or_false]

theorem decides_selects (h : a.WellFormed) (s : Selector) (first : Nat) (hx : a.find? x = some n) :
    Decides (s.selects a first x).fresh (s.Selected a x) := by
  let t : Truth := fun k => ((s.truths a)[k - first]?).getD fun _ => False
  have ht : t.Places first (s.truths a) := by
    intro i P hi
    simp [t, hi]
  exact (s.answers h hx ht).decides

theorem selects_of_hasNever (h : a.WellFormed) {s : Selector} (hs : s.hasNever = true) (first : Nat)
    (hx : a.find? x = some n) : (s.selects a first x).fresh = .ok false := by
  obtain ⟨b, hb, hiff⟩ := decides_selects h s first hx
  cases b with
  | false => exact hb
  | true => exact absurd (hiff.1 rfl).2.hasNever_eq_false (by simp [hs])

end Selector

namespace SelectorList

theorem selected_iff_understood (l : SelectorList) :
    l.Selected a x ↔ l.understood.Selected a x := by
  refine and_congr_right fun _ => exists_congr fun s => ?_
  rw [understood, List.mem_filter, and_assoc]
  refine and_congr_right fun _ => ?_
  rw [iff_and_self]
  intro hs
  rw [hs.hasNever_eq_false, Bool.not_false]

end SelectorList

namespace Arena.WellFormed

variable (h : a.WellFormed)
include h

theorem decides_groups (l : SelectorList) (hx : a.find? x = some n) :
    Decides (a.isSelected x l)
      (∃ s ∈ l.groups, ∀ first, (s.selects a first x).fresh = .ok true) := by
  obtain ⟨b, hb, hiff⟩ := h.decides_isSelected l hx
  refine ⟨b, hb, hiff.trans ?_⟩
  have halone : ∀ s : Selector, s.Selected a x ↔
      ∀ first, (s.selects a first x).fresh = .ok true := by
    intro s
    have hs := fun first => (s.decides_selects h first hx).eq_true_iff
    exact ⟨fun hsel first => (hs first).2 hsel, fun hall => (hs 0).1 (hall 0)⟩
  simp only [← halone, SelectorList.Selected, SelectorList.Means, Selector.Selected]
  constructor
  · rintro ⟨hel, s, hs, hmeans⟩
    exact ⟨s, hs, hel, hmeans⟩
  · rintro ⟨s, hs, hel, hmeans⟩
    exact ⟨hel, s, hs, hmeans⟩

theorem queries_congr {l k : SelectorList} (hlk : ∀ y, l.Selected a y ↔ k.Selected a y)
    (hx : a.find? x = some n) : a.isSelected x l = a.isSelected x k ∧
      a.queryAll x l = a.queryAll x k ∧ a.query x l = a.query x k := by
  classical
  have hselected : l.Selected a = k.Selected a := funext fun y => propext (hlk y)
  refine ⟨?_, ?_, ?_⟩
  · exact (h.decides_isSelected l hx).eq (hselected ▸ h.decides_isSelected k hx)
  · rw [h.queryAll_eq l hx, h.queryAll_eq k hx]
    simp only [hselected]
  · rw [h.query_eq l hx, h.query_eq k hx]
    simp only [hselected]

end Arena.WellFormed

namespace Arena

/-- A group with something that is not understood selects no node, and the list is answered by its
other groups, for one node and for all below it. -/
theorem Reachable.understood_groups (ha : a.Reachable) (text : String) (hx : a.find? x = some n) :
    (∀ s ∈ (SelectorList.parse text).groups, s.hasNever = true →
      ∀ first, (s.selects a first x).fresh = .ok false) ∧
    Decides (a.isSelected x (.parse text))
      (∃ s ∈ (SelectorList.parse text).groups, s.hasNever = false ∧
        ∀ first, (s.selects a first x).fresh = .ok true) ∧
    a.isSelected x (.parse text) = a.isSelected x (SelectorList.parse text).understood ∧
    a.queryAll x (.parse text) = a.queryAll x (SelectorList.parse text).understood ∧
    a.query x (.parse text) = a.query x (SelectorList.parse text).understood := by
  have h := ha.wellFormed
  have hqueries := h.queries_congr (fun y => (SelectorList.parse text).selected_iff_understood) hx
  refine ⟨fun s _ hs first => s.selects_of_hasNever h hs first hx, ?_, hqueries⟩
  rw [hqueries.1]
  obtain ⟨b, hb, hiff⟩ := h.decides_groups (SelectorList.parse text).understood hx
  refine ⟨b, hb, hiff.trans (exists_congr fun s => ?_)⟩
  rw [SelectorList.understood, List.mem_filter, Bool.not_eq_true', and_assoc]

theorem understood_groups_malformed : ∃ (a : Arena) (n : Node) (l : SelectorList),
    a.Reachable ∧ a.find? 2 = some n ∧ l = .parse "a:hover > b ~ c, b, [=x]" ∧
    l.groups.map (·.hasNever) = [true, false, true] ∧
    (∀ s ∈ l.groups, s.hasNever = true → ∀ first, (s.selects a first 2).fresh = .ok false) ∧
    Decides (a.isSelected 2 l)
      (∃ s ∈ l.groups, s.hasNever = false ∧ ∀ first, (s.selects a first 2).fresh = .ok true) ∧
    a.isSelected 2 l = a.isSelected 2 l.understood ∧
    a.queryAll 2 l = a.queryAll 2 l.understood ∧ a.query 2 l = a.query 2 l.understood := by
  have h : (Operation.run [.createDocument, .createElement 0 "a", .createElement 0 "b",
      .createElement 0 "c", .append 1 [2, 3]] .empty).Reachable := ⟨⟨_, rfl⟩, by decide⟩
  exact ⟨_, _, _, h, rfl, rfl, by decide +kernel, h.understood_groups _ rfl⟩

end Arena

end DocTree
