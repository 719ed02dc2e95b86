import DocTree.Proofs.Selector.Rows
import DocTree.Selector.Builder

namespace DocTree.RowBuilder

/-- Whatever rows there are, those of the selector come after them. -/
def Builds (m : RowBuilder Nat) (s : Selector) : Prop :=
  ∀ rows : Array SelectorRow, m.run rows = (s.number rows.size, rows ++ (s.rows rows.size).toArray)

def BuildsSome (m : RowBuilder (Option Nat)) : Option Selector → Prop
  | none => ∀ rows : Array SelectorRow, m.run rows = (none, rows)
  | some s => ∀ rows : Array SelectorRow,
    m.run rows = (some (s.number rows.size), rows ++ (s.rows rows.size).toArray)

variable {m l r : RowBuilder Nat} {s t : Selector} {rows rows' : Array SelectorRow}

theorem run_bind {m : RowBuilder α} {v : α} (h : m.run rows = (v, rows')) (f : α → RowBuilder β) :
    (m >>= f).run rows = (f v).run rows' := by
  change (f (m.run rows).1).run (m.run rows).2 = _
  rw [h]

theorem run_pure (v : α) (rows : Array SelectorRow) :
    (pure v : RowBuilder α).run rows = (v, rows) := rfl

theorem run_push (row : SelectorRow) (rows : Array SelectorRow) :
    (push row).run rows = (rows.size, rows.push row) := rfl

theorem builds_push (p : Predicate) : Builds (push (.simple p)) (.simple p) := by
  intro rows
  simp [run_push, Selector.number, Selector.size, Selector.rows]

theorem run_buildParts (parts : List (List Char)) (rows : Array SelectorRow) :
    (buildParts parts).run rows =
      (List.range' rows.size (parts.filterMap Predicate.ofPart).length,
        rows ++ ((parts.filterMap Predicate.ofPart).map SelectorRow.simple).toArray) := by
  induction parts generalizing rows with
  | nil =>
    rw [buildParts, run_pure]
    simp
  | cons part rest ih =>
    rw [buildParts]
    split
    next hnone => rw [ih, List.filterMap_cons_none hnone]
    next p hsome =>
      rw [run_bind (run_push (.simple p) rows), run_bind (ih _), run_pure,
        List.filterMap_cons_some hsome]
      simp [List.range'_succ]

theorem builds_compound (s : List Char) : Builds (buildCompound s) (Selector.ofCompound s) := by
  intro rows
  rw [buildCompound, run_bind (run_buildParts _ rows), Selector.ofCompound]
  cases (splitCompound s).filterMap Predicate.ofPart with
  | nil => simpa using builds_push (.tag "*") rows
  | cons p ps =>
    cases ps with
    | nil =>
      change (pure rows.size : RowBuilder Nat).run _ = _
      rw [run_pure]
      simp [Selector.number, Selector.size, Selector.rows]
    | cons q ps =>
      simp [List.range'_succ, run_push, Selector.number, Selector.size, Selector.rows]

theorem BuildsSome.side {m : RowBuilder (Option Nat)} {s : Option Selector} (h : BuildsSome m s) :
    Builds (do side (← m)) (s.getD .never) := by
  intro rows
  cases s with
  | none =>
    rw [run_bind (h rows)]
    exact builds_push .never rows
  | some s =>
    rw [run_bind (h rows)]
    rfl

theorem Builds.combined (hl : Builds l s) (hr : Builds r t) (k : Combinator) :
    BuildsSome (do
      let left ← l
      let right ← r
      return some (← push (.combined k left right))) (some (.combined k s t)) := by
  intro rows
  have hright := hr (rows ++ (s.rows rows.size).toArray)
  rw [run_bind (hl rows), run_bind hright, run_bind (run_push _ _), run_pure,
    Selector.number_combined, Selector.rows]
  simp [Nat.add_assoc]

theorem buildsSome_group (s : List Char) : BuildsSome (buildGroup? s) (Selector.parse? s) := by
  fun_induction Selector.parse? s with
  | case1 s hblank =>
    rw [buildGroup?, if_pos hblank]
    exact fun rows => rfl
  | case2 s hblank hnone =>
    rw [buildGroup?, if_neg hblank]
    split
    next =>
      intro rows
      rw [run_bind (builds_compound _ rows), run_pure]
    next h => cases hnone.symm.trans h
  | case3 s hblank l k r hsome _ _ ihl ihr =>
    rw [buildGroup?, if_neg hblank]
    split
    next h => cases hsome.symm.trans h
    next h =>
      cases hsome.symm.trans h
      simpa using ihl.side.combined ihr.side k

theorem run_buildGroups (groups : List (List Char)) (rows : Array SelectorRow) :
    (buildGroups groups).run rows =
      (SelectorList.groupNumbers (groups.filterMap Selector.parse?) rows.size,
        rows ++ (SelectorList.groupRows (groups.filterMap Selector.parse?) rows.size).toArray) := by
  induction groups generalizing rows with
  | nil =>
    rw [buildGroups, run_pure]
    simp [SelectorList.groupNumbers, SelectorList.groupRows]
  | cons group rest ih =>
    have hgroup := buildsSome_group group
    rw [buildGroups]
    cases hs : Selector.parse? group with
    | none =>
      rw [hs] at hgroup
      rw [run_bind (hgroup rows), ih, List.filterMap_cons_none hs]
    | some s =>
      rw [hs] at hgroup
      rw [run_bind (hgroup rows), run_bind (ih _), run_pure, List.filterMap_cons_some hs]
      simp [SelectorList.groupNumbers, SelectorList.groupRows]

/-- The rows are those that are written while the text is read, each at its number. -/
theorem parse_eq (text : String) :
    parse text = ((SelectorList.parse text).root, (SelectorList.parse text).rows.toArray) := by
  change (buildGroups _ >>= fun numbers => push (.any numbers)).run #[] = _
  rw [run_bind (run_buildGroups _ _), run_push]
  simp [SelectorList.root, SelectorList.rows, SelectorList.numbers, SelectorList.parse,
    SelectorList.length_groupRows, List.filterMap_map]

example : parse "a, .b > #c.d" = (6, #[.simple (.tag "a"), .simple (.className "b"),
    .simple (.id "c"), .simple (.className "d"), .all [2, 3], .combined .child 1 4,
    .any [0, 5]]) := by decide +kernel

end DocTree.RowBuilder
