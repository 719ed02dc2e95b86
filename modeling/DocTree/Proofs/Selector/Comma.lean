import DocTree.Proofs.Selector.Backward
import DocTree.Proofs.Selector.Queries

namespace DocTree

def Nesting.scan (n : Nesting) (left : List Char) : List Char → Nesting
  | [] => n
  | c :: s => (n.feed .forward left c).scan (c :: left) s

def SelectorRow.shift (k : Nat) : SelectorRow → SelectorRow
  | .simple p => .simple p
  | .all parts => .all (parts.map (· + k))
  | .any groups => .any (groups.map (· + k))
  | .combined c left right => .combined c (left + k) (right + k)

instance : Append SelectorList where
  append l k := ⟨l.groups ++ k.groups⟩

variable {a : Arena} {x : NodeId} {n : Node} {l k : SelectorList}

namespace Nesting

variable {n : Nesting} {c d : Char} {s : List Char}

theorem eq_top_of_isTop (h : n.isTop = true) : n = top := by
  obtain ⟨brackets, parens, quote⟩ := n
  simp only [isTop, Bool.and_eq_true, beq_iff_eq, Option.isNone_iff_eq_none] at h
  obtain ⟨⟨rfl, rfl⟩, rfl⟩ := h
  rfl

theorem pieces_ne_nil (separator : Char) (n : Nesting) (left s : List Char) :
    pieces separator n left s ≠ [] := by
  cases s with
  | nil => exact List.cons_ne_nil _ _
  | cons c s =>
    rw [pieces]
    split
    · exact List.cons_ne_nil _ _
    · rw [ne_eq, List.modifyHead_eq_nil_iff]
      exact pieces_ne_nil separator _ _ s

theorem pieces_append_cons (hd : d ≠ '\\') (separator : Char) (n : Nesting) (u left s : List Char) :
    pieces separator n (u ++ d :: left) s = pieces separator n u s := by
  induction s generalizing n u with
  | nil => rfl
  | cons c s ih => rw [pieces, pieces, feed_append_cons hd, ← List.cons_append, ih]

theorem pieces_comma {left : List Char} (h : (n.scan left s).isTop = true) (t : List Char) :
    pieces ',' n left (s ++ ',' :: t) = pieces ',' n left s ++ splitTop ',' t := by
  induction s generalizing n left with
  | nil =>
    obtain rfl := eq_top_of_isTop h
    have hcomma : pieces ',' top left (',' :: t) = [] :: pieces ',' top (',' :: left) t := rfl
    have hfresh := pieces_append_cons (by decide : ',' ≠ '\\') ',' top [] left t
    rw [List.nil_append, hcomma, ← List.nil_append (',' :: left), hfresh]
    rfl
  | cons c s ih =>
    rw [List.cons_append, pieces, pieces, ih h]
    split
    · rfl
    · obtain ⟨piece, more, hpieces⟩ := List.exists_cons_of_ne_nil
        (pieces_ne_nil ',' (n.feed .forward left c) (c :: left) s)
      rw [hpieces]
      rfl

end Nesting

namespace Selector

theorem number_add (s : Selector) (first k : Nat) : s.number (first + k) = s.number first + k := by
  have hpos := s.size_pos
  rw [number, number]
  omega

theorem rows_add (s : Selector) (first k : Nat) :
    s.rows (first + k) = (s.rows first).map (·.shift k) := by
  induction s generalizing first with
  | simple p => rfl
  | all parts =>
    have hrange : List.range' (first + k) parts.length =
        (List.range' first parts.length).map (· + k) := by
      rw [Nat.add_comm first, ← List.map_add_range']
      simp only [Nat.add_comm]
    rw [rows, rows, hrange, List.map_append, List.map_map]
    rfl
  | combined c left right ihl ihr =>
    rw [rows, rows, Nat.add_right_comm, ihl, ihr, number_add, number_add, List.map_append,
      List.map_append]
    rfl

end Selector

namespace SelectorList

theorem groupRows_add (groups : List Selector) (first k : Nat) :
    groupRows groups (first + k) = (groupRows groups first).map (·.shift k) := by
  induction groups generalizing first with
  | nil => rfl
  | cons s rest ih =>
    rw [groupRows, groupRows, Nat.add_right_comm, ih, s.rows_add, List.map_append]

theorem groupNumbers_add (groups : List Selector) (first k : Nat) :
    groupNumbers groups (first + k) = (groupNumbers groups first).map (· + k) := by
  induction groups generalizing first with
  | nil => rfl
  | cons s rest ih =>
    rw [groupNumbers, groupNumbers, Nat.add_right_comm, ih, s.number_add, List.map_cons]

theorem groupRows_append (groups more : List Selector) (first : Nat) :
    groupRows (groups ++ more) first =
      groupRows groups first ++ groupRows more (first + groupSize groups) := by
  induction groups generalizing first with
  | nil => rfl
  | cons s rest ih =>
    rw [List.cons_append, groupRows, groupRows, groupSize, ih, List.append_assoc, Nat.add_assoc]

theorem groupNumbers_append (groups more : List Selector) (first : Nat) :
    groupNumbers (groups ++ more) first =
      groupNumbers groups first ++ groupNumbers more (first + groupSize groups) := by
  induction groups generalizing first with
  | nil => rfl
  | cons s rest ih =>
    rw [List.cons_append, groupNumbers, groupNumbers, groupSize, ih, List.cons_append,
      Nat.add_assoc]

theorem groups_append (l k : SelectorList) : (l ++ k).groups = l.groups ++ k.groups := rfl

theorem numbers_append (l k : SelectorList) :
    (l ++ k).numbers = l.numbers ++ k.numbers.map (· + l.root) := by
  rw [numbers, groups_append, groupNumbers_append, Nat.zero_add, ← root, ← Nat.zero_add l.root,
    groupNumbers_add, Nat.zero_add]
  rfl

theorem rows_append (l k : SelectorList) :
    (l ++ k).rows = l.rows.dropLast ++ k.rows.dropLast.map (·.shift l.root) ++
      [.any (l.numbers ++ k.numbers.map (· + l.root))] := by
  rw [rows, rows, rows, List.dropLast_concat, List.dropLast_concat, numbers_append, groups_append,
    groupRows_append, groupRows_add]
  rfl

theorem selected_append_iff : (l ++ k).Selected a x ↔ l.Selected a x ∨ k.Selected a x := by
  simp only [Selected, Means, groups_append, List.mem_append, or_and_right, exists_or, and_or_left]

theorem parse_comma {s : String} (hs : (Nesting.top.scan [] s.toList).isTop = true) (t : String) :
    parse (s ++ "," ++ t) = parse s ++ parse t := by
  have htext : (s ++ "," ++ t).toList = s.toList ++ ',' :: t.toList := by simp
  rw [parse, htext, splitTop, Nesting.pieces_comma hs, List.filterMap_append]
  rfl

end SelectorList

namespace Arena

/-- If nothing is open at the end of `s`, a node is selected by `s` and `t` with a comma between
just if `s` or `t` selects it. -/
theorem Reachable.isSelected_comma (ha : a.Reachable) (hx : a.find? x = some n) {s : String}
    (hs : (Nesting.top.scan [] s.toList).isTop = true) (t : String) :
    (SelectorList.parse (s ++ "," ++ t)).groups =
      (SelectorList.parse s).groups ++ (SelectorList.parse t).groups ∧
    (SelectorList.parse (s ++ "," ++ t)).rows = (SelectorList.parse s).rows.dropLast ++
      (SelectorList.parse t).rows.dropLast.map (·.shift (SelectorList.parse s).root) ++
        [.any ((SelectorList.parse s).numbers ++
          (SelectorList.parse t).numbers.map (· + (SelectorList.parse s).root))] ∧
    ∃ b c, a.isSelected x (.parse s) = .ok b ∧ a.isSelected x (.parse t) = .ok c ∧
      a.isSelected x (.parse (s ++ "," ++ t)) = .ok (b || c) := by
  have h := ha.wellFormed
  obtain ⟨b, hb, hleft⟩ := h.decides_isSelected (.parse s) hx
  obtain ⟨c, hc, hright⟩ := h.decides_isSelected (.parse t) hx
  rw [SelectorList.parse_comma hs]
  refine ⟨rfl, SelectorList.rows_append _ _, b, c, hb, hc, ?_⟩
  refine (h.decides_isSelected _ hx).eq ⟨b || c, rfl, ?_⟩
  rw [SelectorList.selected_append_iff, Bool.or_eq_true, hleft, hright]

theorem isSelected_comma_malformed : ∃ (a : Arena) (n : Node) (s t : String), a.Reachable ∧
    a.find? 2 = some n ∧ s = "a[t=\"x\\\",y\"] > b\\" ∧ t = "b, \"), b[ , b:hover" ∧
    (Nesting.top.scan [] s.toList).isTop = true ∧
    (SelectorList.parse (s ++ "," ++ t)).groups =
      (SelectorList.parse s).groups ++ (SelectorList.parse t).groups ∧
    (SelectorList.parse (s ++ "," ++ t)).rows = (SelectorList.parse s).rows.dropLast ++
      (SelectorList.parse t).rows.dropLast.map (·.shift (SelectorList.parse s).root) ++
        [.any ((SelectorList.parse s).numbers ++
          (SelectorList.parse t).numbers.map (· + (SelectorList.parse s).root))] ∧
    a.isSelected 2 (.parse s) = .ok false ∧ a.isSelected 2 (.parse t) = .ok true ∧
      a.isSelected 2 (.parse (s ++ "," ++ t)) = .ok true := by
  have h : (Operation.run [.createDocument, .createElement 0 "a", .createElement 0 "b",
      .append 1 [2]] .empty).Reachable := ⟨⟨_, rfl⟩, by decide⟩
  have hs : (Nesting.top.scan [] "a[t=\"x\\\",y\"] > b\\".toList).isTop = true := by
    decide +kernel
  obtain ⟨hgroups, hrows, b, c, hleft, hright, hboth⟩ :=
    h.isSelected_comma (x := 2) rfl hs "b, \"), b[ , b:hover"
  obtain rfl : b = false := Except.ok.inj (hleft.symm.trans (by decide +kernel))
  obtain rfl : c = true := Except.ok.inj (hright.symm.trans (by decide +kernel))
  exact ⟨_, _, _, _, h, rfl, rfl, rfl, hs, hgroups, hrows, hleft, hright, hboth⟩

end Arena

end DocTree
