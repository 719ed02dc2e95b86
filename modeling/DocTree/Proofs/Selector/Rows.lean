import DocTree.Selector.Listing
import Mathlib.Data.List.Perm.Basic

namespace DocTree

/-- What `part` lists stands in `rows` from the number `first` on. -/
def RowsAt (rows : List ρ) (first : Nat) (part : List ρ) : Prop := part <+: rows.drop first

section

variable {rows ps qs : List ρ} {row : ρ} {first : Nat}

theorem rowsAt_self (rows : List ρ) : RowsAt rows 0 rows := List.prefix_refl rows

theorem RowsAt.left (h : RowsAt rows first (ps ++ qs)) : RowsAt rows first ps :=
  (List.prefix_append ps qs).trans h

theorem RowsAt.right (h : RowsAt rows first (ps ++ qs)) : RowsAt rows (first + ps.length) qs := by
  obtain ⟨rest, hrest⟩ := h
  rw [RowsAt, ← List.drop_drop, ← hrest, List.append_assoc, List.drop_left]
  exact List.prefix_append qs rest

theorem RowsAt.head (h : RowsAt rows first (row :: ps)) : rows[first]? = some row := by
  obtain ⟨rest, hrest⟩ := h
  rw [← Nat.add_zero first, ← List.getElem?_drop, ← hrest]
  rfl

theorem RowsAt.get {i : Nat} (h : RowsAt rows first ps) (hi : ps[i]? = some row) :
    rows[first + i]? = some row := by
  obtain ⟨rest, hrest⟩ := h
  rw [← List.getElem?_drop, ← hrest,
    List.getElem?_append_left (List.getElem?_eq_some_iff.1 hi).1, hi]

end

def SelectorRow.references : SelectorRow → List Nat
  | .simple _ => []
  | .all parts => parts
  | .any groups => groups
  | .combined _ left right => [left, right]

namespace Selector

def ownRow : Selector → Nat → SelectorRow
  | .simple p, _ => .simple p
  | .all parts, first => .all (List.range' first parts.length)
  | .combined c left right, first =>
    .combined c (left.number first) (right.number (first + left.size))

theorem number_lt (s : Selector) (first : Nat) : s.number first < first + s.size := by
  have hpos := s.size_pos
  rw [number]
  omega

theorem number_combined (c : Combinator) (left right : Selector) (first : Nat) :
    (combined c left right).number first = first + left.size + right.size := by
  rw [number, size]
  omega

theorem getElem?_rows_number (s : Selector) (first : Nat) {rows : List SelectorRow}
    (h : RowsAt rows first (s.rows first)) : rows[s.number first]? = some (s.ownRow first) := by
  cases s with
  | simple p => exact h.head
  | all parts =>
    have hlast := h.right.head
    rwa [List.length_map] at hlast
  | combined c left right =>
    have hlast := h.right.head
    rwa [List.length_append, length_rows, length_rows, ← Nat.add_assoc,
      ← number_combined c] at hlast

theorem perm_references (s : Selector) (first : Nat) :
    ((s.rows first).flatMap (·.references) ++ [s.number first]).Perm
      (List.range' first s.size) := by
  induction s generalizing first with
  | simple p => exact .refl _
  | all parts =>
    have hparts : (parts.map SelectorRow.simple).flatMap (·.references) = [] := by
      simp [SelectorRow.references]
    rw [rows, List.flatMap_append, hparts, size, List.range'_concat]
    simp [SelectorRow.references, number, size]
  | combined c left right ihl ihr =>
    have hrange : List.range' first (left.size + right.size + 1) =
        List.range' first left.size ++ List.range' (first + left.size) right.size ++
          [first + left.size + right.size] := by
      rw [List.range'_append_1, List.range'_concat]
      simp [Nat.add_assoc]
    rw [rows, size, hrange, number_combined]
    refine List.Perm.append_right _ ?_
    refine List.Perm.trans ?_ ((ihl first).append (ihr (first + left.size)))
    simp only [List.flatMap_append, List.flatMap_singleton, SelectorRow.references,
      List.append_assoc]
    exact List.Perm.append_left _ (List.perm_append_comm_assoc _ [left.number first] [_])

end Selector

namespace SelectorList

theorem perm_groupReferences (groups : List Selector) (first : Nat) :
    ((groupRows groups first).flatMap (·.references) ++ groupNumbers groups first).Perm
      (List.range' first (groupSize groups)) := by
  induction groups generalizing first with
  | nil => exact .refl _
  | cons s rest ih =>
    rw [groupRows, groupNumbers, groupSize, ← List.range'_append_1, List.flatMap_append,
      List.append_assoc]
    refine List.Perm.trans ?_ ((s.perm_references first).append (ih (first + s.size)))
    rw [List.append_assoc]
    exact List.Perm.append_left _ (List.perm_append_comm_assoc _ [s.number first] _)

/-- Each row but the last is referred to once, and the last is not. -/
theorem perm_references (l : SelectorList) :
    (l.rows.flatMap (·.references)).Perm (List.range l.root) := by
  have h := perm_groupReferences l.groups 0
  rw [rows, List.flatMap_append, List.range_eq_range', root]
  simpa [SelectorRow.references, numbers] using h

end SelectorList

end DocTree
