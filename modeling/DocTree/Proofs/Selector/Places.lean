import DocTree.Proofs.Selector.Comma
import DocTree.Proofs.Selector.Forward
import Mathlib.Data.List.SplitBy

namespace DocTree.Nesting

def scanBack (n : Nesting) (left : List Char) : List Char → Nesting
  | [] => n
  | c :: s => (n.scanBack (c :: left) s).feed .backward left c

def before (s : List Char) (i : Nat) : Nesting := top.scan [] (s.take i)

def after (s : List Char) (i : Nat) : Nesting := top.scanBack (s.take i).reverse (s.drop i)

/-- From the start, nothing closes that is not open, and nothing is left open. -/
structure Balanced (s : List Char) : Prop where
  admits : ∀ i c, s[i]? = some c → (before s i).Admits c
  closed : (top.scan [] s).isTop = true

instance (n : Nesting) (c : Char) : Decidable (n.Admits c) :=
  inferInstanceAs (Decidable (n.quote = none → _ ∧ _))

theorem balanced_iff {s : List Char} : Balanced s ↔
    (∀ p ∈ s.zipIdx, (before s p.2).Admits p.1) ∧ (top.scan [] s).isTop = true := by
  constructor
  · exact fun h => ⟨fun p hp => h.admits _ _ (List.mem_zipIdx_iff_getElem?.1 hp), h.closed⟩
  · rintro ⟨hadmits, hclosed⟩
    exact ⟨fun i c hi => hadmits (c, i) (List.mem_zipIdx_iff_getElem?.2 hi), hclosed⟩

instance (s : List Char) : Decidable (Balanced s) := decidable_of_iff _ balanced_iff.symm

def isPaired (c : Char) : Bool := c == '[' || c == ']' || c == '(' || c == ')'

variable {n m : Nesting} {c : Char} {s t left : List Char} {i : Nat}

theorem scan_append (n : Nesting) (left s t : List Char) :
    n.scan left (s ++ t) = (n.scan left s).scan (s.reverse ++ left) t := by
  induction s generalizing n left with
  | nil => rfl
  | cons c s ih => simp [scan, ih]

theorem Valid.feed (hn : n.Valid) (d : Direction) (left : List Char) (c : Char) :
    (n.feed d left c).Valid := by
  cases hquote : n.quote with
  | some q =>
    simp only [Nesting.feed, hquote]
    split
    · rintro _ ⟨⟩
    · exact hn
  | none =>
    simp only [Nesting.feed, hquote, feedPlain]
    split
    next h =>
      rintro _ ⟨⟩
      simp_all
    next =>
      intro q hq
      split_ifs at hq
      all_goals
        rw [hquote] at hq
        cases hq

theorem Valid.scan (hn : n.Valid) (left s : List Char) : (n.scan left s).Valid := by
  induction s generalizing n left with
  | nil => exact hn
  | cons c s ih => exact ih (hn.feed .forward left c) _

theorem Valid.scanBack (hn : n.Valid) (left s : List Char) : (n.scanBack left s).Valid := by
  induction s generalizing left with
  | nil => exact hn
  | cons c s ih => exact (ih _).feed .backward left c

theorem drop_eq_cons (h : s.drop i = c :: t) :
    s[i]? = some c ∧ s.drop (i + 1) = t ∧ (s.take (i + 1)).reverse = c :: (s.take i).reverse := by
  have hi : s[i]? = some c := by rw [← List.head?_drop, h]; rfl
  refine ⟨hi, ?_, ?_⟩
  · rw [← List.tail_drop, h]; rfl
  · rw [List.take_add_one, hi]; simp

theorem before_succ (hi : s[i]? = some c) :
    before s (i + 1) = (before s i).feed .forward (s.take i).reverse c := by
  rw [before, List.take_add_one, hi, scan_append, List.append_nil]
  rfl

theorem after_of_getElem? (hi : s[i]? = some c) :
    after s i = (after s (i + 1)).feed .backward (s.take i).reverse c := by
  have hdrop : s.drop i = c :: s.drop (i + 1) := by
    obtain ⟨hlt, rfl⟩ := List.getElem?_eq_some_iff.1 hi
    exact List.drop_eq_getElem_cons hlt
  rw [after, hdrop, scanBack, ← (drop_eq_cons hdrop).2.2]
  rfl

theorem before_valid (s : List Char) (i : Nat) : (before s i).Valid := valid_top.scan _ _

theorem before_of_length_le (hi : s.length ≤ i) : before s i = top.scan [] s := by
  rw [before, List.take_of_length_le hi]

theorem after_of_length_le (hi : s.length ≤ i) : after s i = top := by
  rw [after, List.drop_of_length_le hi]
  rfl

theorem Balanced.before_eq_after (h : Balanced s) (i : Nat) : before s i = after s i := by
  induction hrest : s.drop i generalizing i with
  | nil =>
    have hi := List.drop_eq_nil_iff.1 hrest
    rw [before_of_length_le hi, after_of_length_le hi, eq_top_of_isTop h.closed]
  | cons c t ih =>
    obtain ⟨hi, hdrop, -⟩ := drop_eq_cons hrest
    have hmoves := moves_feed (before s i) (s.take i).reverse c
    rw [after_of_getElem? hi, ← ih (i + 1) hdrop, before_succ hi]
    exact (hmoves.feed_backward (before_valid s i) (h.admits i c hi)).symm

theorem Moves.isTop_eq (h : Moves left n c m) (hn : n.Valid) (hc : isPaired c = false) :
    m.isTop = n.isTop := by
  cases h with
  | leave =>
    obtain ⟨-, hb⟩ := hn _ rfl
    simp [isTop, hb.ne']
  | enter hc hb => simp [isTop, hb.ne']
  | quoted => rfl
  | plain => rfl
  | _ => exact absurd hc (by decide)

theorem Balanced.isTop_after_succ (h : Balanced s) (hi : s[i]? = some c)
    (hc : isPaired c = false) : (after s (i + 1)).isTop = (before s i).isTop := by
  rw [← h.before_eq_after, before_succ hi]
  exact (moves_feed _ _ c).isTop_eq (before_valid s i) hc

def piecesBy (test : Nat → Bool) (separator : Char) (s : List Char) : List (List Char) :=
  (s.zipIdx.splitOnP fun p => p.1 == separator && test p.2).map (·.map Prod.fst)

def partsBy (test : Nat → Bool) (s : List Char) : List (List Char) :=
  (s.zipIdx.splitBy fun _ p => !(test p.2 && startsPart p.1)).map (·.map Prod.fst)

/-- The last combinator at a place where `test` holds, with the text on either side. -/
def combinatorBy (test : Nat → Bool) (s : List Char) :
    Option (List Char × Combinator × List Char) :=
  s.zipIdx.reverse.findSome? fun p =>
    if test p.2 then
      (combinatorAt (s.take p.2).reverse p.1).map (s.take p.2, ·, s.drop (p.2 + 1))
    else none

theorem pieces_before (separator : Char) (h : s.drop i = t) :
    pieces separator (before s i) (s.take i).reverse t =
      ((t.zipIdx i).splitOnP fun p => p.1 == separator && (before s p.2).isTop).map
        (·.map Prod.fst) := by
  induction t generalizing i with
  | nil => rfl
  | cons c t ih =>
    obtain ⟨hi, hdrop, htake⟩ := drop_eq_cons h
    rw [pieces, ← before_succ hi, ← htake, ih hdrop, List.zipIdx_cons,
      List.splitOnP_cons_eq_if_modifyHead]
    split
    · rfl
    · cases (t.zipIdx (i + 1)).splitOnP _ <;> rfl

theorem splitTop_eq_piecesBy (separator : Char) (s : List Char) :
    splitTop separator s = piecesBy (fun i => (before s i).isTop) separator s :=
  pieces_before (i := 0) separator rfl

theorem splitBy_cons_cons {α : Type*} (r : α → α → Bool) (x y : α) (l : List α) :
    (x :: y :: l).splitBy r = if r x y then ((y :: l).splitBy r).modifyHead (x :: ·)
      else [x] :: (y :: l).splitBy r := by
  split
  next h =>
    obtain ⟨run, runs, hrun⟩ := List.exists_cons_of_ne_nil
      (List.splitBy_ne_nil (r := r).2 (List.cons_ne_nil y l))
    obtain ⟨hflat, hnil, hchain, hends⟩ := List.splitBy_eq_iff.1 hrun
    obtain ⟨z, run, rfl⟩ := List.exists_cons_of_ne_nil fun h => hnil (h ▸ List.mem_cons_self)
    obtain ⟨rfl, hl⟩ : y = z ∧ l = run ++ runs.flatten := by simpa using hflat
    rw [hrun, List.modifyHead_cons, List.splitBy_eq_iff]
    refine ⟨by simp [hl], by simp_all, ?_, ?_⟩
    · intro piece hpiece
      rcases List.mem_cons.1 hpiece with rfl | hpiece
      · exact List.isChain_cons_cons.2 ⟨h, hchain _ List.mem_cons_self⟩
      · exact hchain _ (List.mem_cons_of_mem _ hpiece)
    · simp_all [List.isChain_cons]
  next h => exact List.splitBy_append_cons (l := [x]) l (by simpa using h)

theorem partsFrom_before (p : Char × Nat) (h : s.drop i = t) :
    ((p :: t.zipIdx i).splitBy fun _ p => !((before s p.2).isTop && startsPart p.1)).map
        (·.map Prod.fst) =
      (p.1 :: ((before s i).partsFrom (s.take i).reverse t).1) ::
        ((before s i).partsFrom (s.take i).reverse t).2 := by
  induction t generalizing i p with
  | nil => rfl
  | cons c t ih =>
    obtain ⟨hi, hdrop, htake⟩ := drop_eq_cons h
    have hparts := ih (c, i) hdrop
    rw [List.zipIdx_cons, splitBy_cons_cons, partsFrom, ← before_succ hi, ← htake]
    cases hstart : (before s i).isTop && startsPart c with
    | true =>
      simp only [Bool.not_true, Bool.false_eq_true, if_false, if_true, List.map_cons, hparts]
      rfl
    | false =>
      obtain ⟨run, runs, hrun⟩ := List.exists_cons_of_ne_nil
        (List.splitBy_ne_nil.2 (List.cons_ne_nil (c, i) (t.zipIdx (i + 1))))
      rw [hrun] at hparts
      simp_all

theorem splitCompound_eq_partsBy (s : List Char) :
    splitCompound s = partsBy (fun i => (before s i).isTop) s := by
  cases s with
  | nil => rfl
  | cons c s => exact (partsFrom_before (s := c :: s) (i := 1) (c, 0) rfl).symm

theorem combinatorFrom_after (hi : i ≤ s.length) :
    combinatorFrom (after s i) (s.take i).reverse (s.drop i) =
      (s.zipIdx.take i).reverse.findSome? fun p =>
        if (after s (p.2 + 1)).isTop then
          (combinatorAt (s.take p.2).reverse p.1).map (s.take p.2, ·, s.drop (p.2 + 1))
        else none := by
  induction i with
  | zero => rfl
  | succ i ih =>
    have hc : s[i]? = some s[i] := List.getElem?_eq_getElem hi
    have hdrop : s.drop i = s[i] :: s.drop (i + 1) := List.drop_eq_getElem_cons hi
    obtain ⟨-, -, htake⟩ := drop_eq_cons hdrop
    have hzip : s.zipIdx[i]? = some (s[i], i) := by simp [hc]
    rw [htake, combinatorFrom, ← after_of_getElem? hc, ← hdrop, ih (Nat.le_of_lt hi),
      List.take_add_one (l := s.zipIdx), hzip]
    simp only [Option.toList_some, List.reverse_append, List.reverse_singleton,
      List.singleton_append, List.findSome?_cons, List.reverse_reverse]
    split_ifs with htop
    · cases combinatorAt (s.take i).reverse s[i] <;> rfl
    · rfl

theorem lastCombinator_eq_combinatorBy (s : List Char) :
    lastCombinator s = combinatorBy (fun i => (after s (i + 1)).isTop) s := by
  have h := combinatorFrom_after (Nat.le_refl s.length)
  rw [after_of_length_le (Nat.le_refl _), List.take_length, List.drop_length,
    List.take_of_length_le (by simp)] at h
  exact h

theorem isPaired_of_combinatorAt {k : Combinator} (h : combinatorAt left c = some k) :
    isPaired c = false := by
  by_contra hc
  have hjoining : isJoining c = false := by
    simp only [isPaired, Bool.not_eq_false, Bool.or_eq_true, beq_iff_eq] at hc
    rcases hc with ((rfl | rfl) | rfl) | rfl <;> rfl
  rw [combinatorAt_of_isJoining hjoining] at h
  exact nomatch h

theorem findSome?_congr {α β : Type*} {f g : α → Option β} {l : List α}
    (h : ∀ x ∈ l, f x = g x) : l.findSome? f = l.findSome? g := by
  induction l with
  | nil => rfl
  | cons x l ih =>
    rw [List.findSome?_cons, List.findSome?_cons, h x List.mem_cons_self,
      ih fun y hy => h y (List.mem_cons_of_mem x hy)]

theorem Balanced.lastCombinator_eq (h : Balanced s) :
    lastCombinator s = combinatorBy (fun i => (before s i).isTop) s := by
  rw [lastCombinator_eq_combinatorBy]
  refine findSome?_congr fun p hp => ?_
  have hi : s[p.2]? = some p.1 := List.mem_zipIdx_iff_getElem?.1 (List.mem_reverse.1 hp)
  cases hat : combinatorAt (s.take p.2).reverse p.1 with
  | none => simp
  | some k => simp only [h.isTop_after_succ hi (isPaired_of_combinatorAt hat)]

end DocTree.Nesting
