import DocTree.Proofs.Text.Trim
import DocTree.Selector.Nesting

/-! The scan for the last combinator, from the end of a text to its start.  What it has passed holds
no combinator, also when it is read again without what stands left of it. -/

namespace DocTree

namespace Nesting

/-- Going left over `u` (nearest character first), with `left` further on, the scan finds no
combinator and comes to the state `m`. -/
inductive Passes (left : List Char) : Nesting → List Char → Nesting → Prop
  | nil {n} : Passes left n [] n
  | cons {n c u m} (hc : n.isTop = true → combinatorAt (u ++ left) c = none)
      (h : Passes left (n.feed .backward (u ++ left) c) u m) : Passes left n (c :: u) m

variable {n m : Nesting} {c d : Char} {k : Combinator} {l r s u v left right rev : List Char}

@[simp] theorem escaped_nil : escaped [] = false := rfl

@[simp] theorem escaped_backslash (left : List Char) : escaped ('\\' :: left) = !escaped left := by
  have hcount : (('\\' :: left).takeWhile (· == '\\')).length =
      (left.takeWhile (· == '\\')).length + 1 := by simp
  rw [escaped, escaped, hcount, Bool.eq_iff_iff]
  simp only [beq_iff_eq, Bool.not_eq_true', beq_eq_false_iff_ne]
  omega

theorem escaped_cons_of_ne (hc : c ≠ '\\') (left : List Char) : escaped (c :: left) = false := by
  simp [escaped, hc]

theorem escaped_append_cons (hd : d ≠ '\\') (u left : List Char) :
    escaped (u ++ d :: left) = escaped u := by
  induction u with
  | nil => exact escaped_cons_of_ne hd left
  | cons c u ih =>
    by_cases hc : c = '\\'
    · rw [hc, List.cons_append, escaped_backslash, escaped_backslash, ih]
    · rw [List.cons_append, escaped_cons_of_ne hc, escaped_cons_of_ne hc]

theorem feed_append_cons (hd : d ≠ '\\') (n : Nesting) (dir : Direction) (u left : List Char)
    (c : Char) : n.feed dir (u ++ d :: left) c = n.feed dir u c := by
  simp only [feed, feedPlain, escaped_append_cons hd]

theorem combinatorAt_eq (left : List Char) (c : Char) :
    combinatorAt left c =
      if c = '>' then some .child
      else if c = '~' then some .sibling
      else if Text.isAsciiBlank c = true ∧ (left.dropWhile Text.isAsciiBlank).head? ≠ some '>' ∧
        (left.dropWhile Text.isAsciiBlank).head? ≠ some '~' then some .descendant
      else none := by
  simp only [combinatorAt, beq_iff_eq]
  split
  next => rfl
  next =>
    split
    next => rfl
    next =>
      split
      next => split <;> simp_all [List.head?_eq_some_iff]
      next hblank => rw [if_neg fun h => hblank h.1]

def isJoining (c : Char) : Bool := c == '>' || c == '~' || Text.isAsciiBlank c

theorem combinatorAt_of_isJoining (h : isJoining c = false) (left : List Char) :
    combinatorAt left c = none := by
  simp only [isJoining, Bool.or_eq_false_iff] at h
  simp [combinatorAt, h]

theorem combinatorAt_append (hu : ∃ d ∈ u, Text.isAsciiBlank d = false) (left : List Char)
    (c : Char) : combinatorAt (u ++ left) c = combinatorAt u c := by
  obtain ⟨d, hd, hblank⟩ := hu
  have hdrop : u.dropWhile Text.isAsciiBlank ≠ [] := by
    rw [ne_eq, List.dropWhile_eq_nil_iff]
    intro hall
    exact Bool.false_ne_true (hblank.symm.trans (hall d hd))
  have hhead : ((u ++ left).dropWhile Text.isAsciiBlank).head? =
      (u.dropWhile Text.isAsciiBlank).head? := by
    rw [List.dropWhile_append, List.isEmpty_eq_false_iff.2 hdrop]
    exact List.head?_append_of_ne_nil _ hdrop
  rw [combinatorAt_eq, combinatorAt_eq, hhead]

theorem Passes.combinatorFrom_eq (h : Passes left n u m) (right : List Char) :
    combinatorFrom n (u ++ left) right = combinatorFrom m left (u.reverse ++ right) := by
  induction h generalizing right with
  | nil => rfl
  | @cons n c u m hc h ih =>
    have hnone : (if n.isTop then combinatorAt (u ++ left) c else none) = none := by
      split
      next htop => exact hc htop
      next => rfl
    rw [List.cons_append, combinatorFrom, hnone, ih, List.reverse_cons, List.append_assoc,
      List.singleton_append]

theorem Passes.of_append (h : Passes left n (u ++ v) m) : ∃ n', Passes (v ++ left) n u n' := by
  induction u generalizing n with
  | nil => exact ⟨n, .nil⟩
  | cons c u ih =>
    cases h with
    | cons hc h =>
      rw [List.append_eq, List.append_assoc] at hc h
      obtain ⟨n', hn'⟩ := ih h
      exact ⟨n', .cons hc hn'⟩

theorem Passes.isolate (h : Passes (d :: left) n u m) (hd : d ≠ '\\')
    (hu : ∀ c, u.getLast? = some c → Text.isAsciiBlank c = false) : Passes [] n u m := by
  induction h with
  | nil => exact .nil
  | @cons n c u m hc h ih =>
    have hinner : combinatorAt (u ++ d :: left) c = combinatorAt u c ∧
        ∀ e, u.getLast? = some e → Text.isAsciiBlank e = false := by
      cases hlast : u.getLast? with
      | none =>
        obtain rfl := List.getLast?_eq_none_iff.1 hlast
        have hblank := hu c rfl
        exact ⟨by simp [combinatorAt_eq, hblank], by simp⟩
      | some e =>
        have hblank := hu e (by rw [List.getLast?_cons, hlast]; rfl)
        refine ⟨combinatorAt_append ⟨e, List.mem_of_getLast? hlast, hblank⟩ _ c, ?_⟩
        rintro _ ⟨⟩
        exact hblank
    refine .cons (fun htop => ?_) ?_
    · rw [List.append_nil, ← hinner.1, hc htop]
    · have hpasses := ih hinner.2
      rw [feed_append_cons hd] at hpasses
      rwa [List.append_nil]

theorem exists_passes (h : combinatorFrom n rev right = some (l, k, r)) :
    ∃ u c m, rev = u ++ c :: l.reverse ∧ r = u.reverse ++ right ∧
      Passes (c :: l.reverse) n u m ∧ m.isTop = true ∧ combinatorAt l.reverse c = some k := by
  induction rev generalizing n right with
  | nil => simp [combinatorFrom] at h
  | cons c left ih =>
    rw [combinatorFrom] at h
    split at h
    next k' hk =>
      obtain ⟨rfl, rfl, rfl⟩ : left.reverse = l ∧ k' = k ∧ right = r := by simpa using h
      obtain ⟨htop, hat⟩ : n.isTop = true ∧ combinatorAt left c = some k' := by
        simpa using hk
      exact ⟨[], c, n, by simp, rfl, .nil, htop, by simpa using hat⟩
    next hnone =>
      obtain ⟨u, d, m, rfl, rfl, hpasses, htop, hat⟩ := ih h
      refine ⟨c :: u, d, m, rfl, by simp, .cons (fun hn => ?_) hpasses, htop, hat⟩
      rwa [if_pos hn] at hnone

theorem Passes.lastCombinator_eq_none (h : Passes [] top s.reverse m) :
    lastCombinator s = none := by
  have heq := h.combinatorFrom_eq []
  rwa [List.append_nil] at heq

end Nesting

open Nesting

theorem lastCombinator_right {s l r : List Char} {k : Combinator}
    (h : lastCombinator (Text.trim s) = some (l, k, r)) : lastCombinator (Text.trim r) = none := by
  obtain ⟨u, c, m, hrev, hr, hpasses, -, hat⟩ := exists_passes h
  rw [List.append_nil] at hr
  have htrim : Text.trim r = Text.trimLeft r := by
    refine Text.trim_eq_trimLeft fun e he => ?_
    rw [hr, List.getLast?_reverse] at he
    have hlast : (Text.trim s).getLast? = some e := by
      rw [← List.head?_reverse, hrev, List.head?_append, he]
      rfl
    refine (Text.tight_trim ?_).last e hlast
    rintro hnil
    simp [hnil] at hlast
  obtain ⟨w, hw, hsplit⟩ := Text.exists_eq_append_trimLeft r
  have hu : u = (Text.trimLeft r).reverse ++ w.reverse := by
    rw [← List.reverse_append, ← hsplit, hr, List.reverse_reverse]
  rw [hu] at hpasses
  obtain ⟨m', hpasses'⟩ := hpasses.of_append
  obtain ⟨d, left, hleft, hd⟩ : ∃ d left, w.reverse ++ c :: l.reverse = d :: left ∧ d ≠ '\\' := by
    cases hrest : w.reverse with
    | nil =>
      refine ⟨c, l.reverse, rfl, ?_⟩
      rintro rfl
      simp [combinatorAt_of_isJoining (c := '\\') rfl] at hat
    | cons d w' =>
      refine ⟨d, w' ++ c :: l.reverse, rfl, ?_⟩
      rintro rfl
      have hmem : '\\' ∈ w.reverse := hrest ▸ List.mem_cons_self
      exact absurd (hw '\\' (List.mem_reverse.1 hmem)) (by decide)
  rw [hleft] at hpasses'
  rw [htrim]
  refine (hpasses'.isolate hd fun e he => ?_).lastCombinator_eq_none
  rw [List.getLast?_reverse] at he
  have hblank := Text.isBlank_of_head?_trimLeft he
  by_contra hascii
  exact absurd (Text.isBlank_of_isAsciiBlank (by simpa using hascii)) (by simp [hblank])

end DocTree
