import DocTree.Proofs.Selector.Bytes
import DocTree.Proofs.Selector.Shape
import DocTree.Proofs.Text.Slice

namespace DocTree

namespace Nesting

open Text (byteLength slice)

/-- The ranges between the cuts.  A cut is made at top level before a byte that passes `test`, at
least `least` bytes past the start of the range, and the next range starts `skip` bytes further
on; the scan has the bytes `left` behind it, nearest first. -/
def ranges (test : Char → Bool) (least skip : Nat) :
    Nesting → Nat → List Char → List Char → List (Nat × Nat)
  | _, start, left, [] => if start + least ≤ left.length then [(start, left.length)] else []
  | n, start, left, b :: bytes =>
    let next := n.feed .forward left b
    if n.isTop && test b && start + least ≤ left.length then
      (start, left.length) :: ranges test least skip next (left.length + skip) (b :: left) bytes
    else ranges test least skip next start (b :: left) bytes

/-- The ranges of pieces one after another, `skip` bytes apart; the first of them starts at `start`
and goes on at `place`. -/
def spans (skip start place : Nat) : List (List Char) → List (Nat × Nat)
  | [] => []
  | piece :: pieces =>
    let stop := place + byteLength piece
    (start, stop) :: spans skip (stop + skip) (stop + skip) pieces

def pieceRanges (separator : Char) (s : List Char) : List (Nat × Nat) :=
  ranges (· == separator) 0 1 top 0 [] (ofBytes (utf8 s))

def partRanges (s : List Char) : List (Nat × Nat) :=
  ranges startsPart 1 0 top 0 [] (ofBytes (utf8 s))

def combinatorPlaceFrom? : Nesting → List Char → Option (Nat × Combinator)
  | _, [] => none
  | n, b :: left =>
    match if n.isTop then combinatorAt left b else none with
    | some k => some (left.length, k)
    | none => combinatorPlaceFrom? (n.feed .backward left b) left

def combinatorPlace? (s : List Char) : Option (Nat × Combinator) :=
  combinatorPlaceFrom? top (ofBytes (utf8 s)).reverse

variable {n : Nesting} {c separator : Char} {s bytes : List Char} {test : Char → Bool}
  {least skip start : Nat} {k : Combinator}

theorem length_ofBytes_utf8 (s : List Char) : (ofBytes (utf8 s)).length = byteLength s := by
  induction s with
  | nil => rfl
  | cons c s ih =>
    rw [ofBytes_utf8_cons, List.length_append, ih, Text.byteLength_cons, ofBytes, List.length_map,
      String.length_utf8EncodeChar]

theorem ofBytes_encode_ne_nil (c : Char) : ofBytes (String.utf8EncodeChar c) ≠ [] := by
  simp [ofBytes]

theorem ofBytes_utf8_nil : ofBytes (utf8 []) = [] := rfl

theorem ofBytes_utf8_append (s t : List Char) :
    ofBytes (utf8 (s ++ t)) = ofBytes (utf8 s) ++ ofBytes (utf8 t) := by
  simp [utf8, ofBytes]

theorem ofBytes_utf8_cons_ascii (hc : c.toNat < 128) (s : List Char) :
    ofBytes (utf8 (c :: s)) = c :: ofBytes (utf8 s) := by
  rw [ofBytes_utf8_cons, ofBytes_encode_ascii hc, List.singleton_append]

theorem reverse_ofBytes_utf8_concat (s : List Char) (c : Char) :
    (ofBytes (utf8 (s ++ [c]))).reverse =
      (ofBytes (String.utf8EncodeChar c)).reverse ++ (ofBytes (utf8 s)).reverse := by
  simp [utf8, ofBytes]

theorem escaped_reverse_utf8 (s : List Char) :
    escaped (ofBytes (utf8 s)).reverse = escaped s.reverse := by
  simpa using escaped_utf8 (rfl : escaped [] = escaped []) s

theorem beq_of_le_toNat {e : Char} (he : e.toNat < 128) (hc : 128 ≤ c.toNat) :
    (c == e) = false := beq_eq_false_iff_ne.2 (ne_of_le_toNat hc he)

theorem startsPart_of_le_toNat (hc : 128 ≤ c.toNat) : startsPart c = false := by
  simp [startsPart, beq_of_le_toNat _ hc]

theorem isAsciiBlank_of_le_toNat (hc : 128 ≤ c.toNat) : Text.isAsciiBlank c = false := by
  simp [Text.isAsciiBlank, beq_of_le_toNat _ hc]

theorem isJoining_of_le_toNat (hc : 128 ≤ c.toNat) : isJoining c = false := by
  simp [isJoining, isAsciiBlank_of_le_toNat hc, beq_of_le_toNat _ hc]

theorem ranges_of_le_toNat (hbytes : ∀ b ∈ bytes, 128 ≤ b.toNat) (hn : n.Valid)
    (htest : ∀ b : Char, 128 ≤ b.toNat → test b = false) (left more : List Char) :
    ranges test least skip n start left (bytes ++ more) =
      ranges test least skip n start (bytes.reverse ++ left) more := by
  induction bytes generalizing left with
  | nil => rfl
  | cons b bytes ih =>
    obtain ⟨hb, hbytes⟩ := List.forall_mem_cons.1 hbytes
    rw [List.cons_append, ranges, feed_of_le_toNat hb hn]
    simp [htest b hb, ih hbytes]

theorem ranges_pass (hn : n.Valid) (htest : ∀ b : Char, 128 ≤ b.toNat → test b = false)
    (hc : (n.isTop && test c && decide (start + least ≤ byteLength s)) = false) (t : List Char) :
    ranges test least skip n start (ofBytes (utf8 s)).reverse (ofBytes (utf8 (c :: t))) =
      ranges test least skip (n.feed .forward s.reverse c) start
        (ofBytes (utf8 (s ++ [c]))).reverse (ofBytes (utf8 t)) := by
  rw [reverse_ofBytes_utf8_concat]
  rcases Nat.lt_or_ge c.toNat 128 with hascii | hascii
  · rw [ofBytes_utf8_cons_ascii hascii, ranges, List.length_reverse, length_ofBytes_utf8, hc,
      feed_congr (escaped_reverse_utf8 s), ofBytes_encode_ascii hascii]
    rfl
  · rw [ofBytes_utf8_cons, feed_of_le_toNat hascii hn,
      ranges_of_le_toNat (fun e => le_of_mem_ofBytes_encode hascii) hn htest]

theorem ranges_cut (hascii : c.toNat < 128)
    (hc : (n.isTop && test c && decide (start + least ≤ byteLength s)) = true) (t : List Char) :
    ranges test least skip n start (ofBytes (utf8 s)).reverse (ofBytes (utf8 (c :: t))) =
      (start, byteLength s) :: ranges test least skip (n.feed .forward s.reverse c)
        (byteLength s + skip) (ofBytes (utf8 (s ++ [c]))).reverse (ofBytes (utf8 t)) := by
  rw [reverse_ofBytes_utf8_concat, ofBytes_utf8_cons_ascii hascii, ranges, List.length_reverse,
    length_ofBytes_utf8, hc, feed_congr (escaped_reverse_utf8 s), ofBytes_encode_ascii hascii]
  rfl

theorem spans_cons_cons (skip start place : Nat) (c : Char) (piece : List Char)
    (pieces : List (List Char)) :
    spans skip start place ((c :: piece) :: pieces) =
      spans skip start (place + c.utf8Size) (piece :: pieces) := by
  simp [spans, Nat.add_assoc]

theorem spans_modifyHead (skip start place : Nat) (c : Char) (pieces : List (List Char)) :
    spans skip start place (pieces.modifyHead (c :: ·)) =
      spans skip start (place + c.utf8Size) pieces := by
  cases pieces with
  | nil => rfl
  | cons piece pieces => exact spans_cons_cons skip start place c piece pieces

theorem byteLength_concat_ascii (hc : c.toNat < 128) (s : List Char) :
    byteLength (s ++ [c]) = byteLength s + 1 := by
  have hsize : c.utf8Size = 1 := Char.utf8Size_eq_one_iff.2 (Nat.le_of_lt_succ hc)
  simp [hsize]

theorem ranges_pieces (hseparator : separator.toNat < 128) (hn : n.Valid)
    (hstart : start ≤ byteLength s) (t : List Char) :
    ranges (· == separator) 0 1 n start (ofBytes (utf8 s)).reverse (ofBytes (utf8 t)) =
      spans 1 start (byteLength s) (pieces separator n s.reverse t) := by
  have htest : ∀ b : Char, 128 ≤ b.toNat → (b == separator) = false :=
    fun b => beq_of_le_toNat hseparator
  induction t generalizing n start s with
  | nil =>
    rw [ofBytes_utf8_nil, ranges, List.length_reverse, length_ofBytes_utf8, Nat.add_zero,
      if_pos hstart]
    rfl
  | cons c t ih =>
    have hfeed := hn.feed .forward s.reverse c
    have hleft : c :: s.reverse = (s ++ [c]).reverse := by simp
    rw [pieces, hleft]
    split
    next h =>
      obtain ⟨hc, htop⟩ := Bool.and_eq_true_iff.1 h
      have hascii : c.toNat < 128 := eq_of_beq hc ▸ hseparator
      have hlength := byteLength_concat_ascii hascii s
      rw [ranges_cut hascii (by simp [hc, htop, hstart]), ← hlength,
        ih hfeed (Nat.le_refl _), hlength]
      rfl
    next h =>
      have hpass : (n.isTop && c == separator && decide (start + 0 ≤ byteLength s)) = false := by
        rw [Bool.and_comm n.isTop, Bool.eq_false_of_not_eq_true h, Bool.false_and]
      have hnext : start ≤ byteLength (s ++ [c]) := by
        rw [Text.byteLength_append]
        omega
      rw [ranges_pass hn htest hpass, ih hfeed hnext, spans_modifyHead]
      simp

theorem ranges_parts (hn : n.Valid) (hstart : start < byteLength s) (t : List Char) :
    ranges startsPart 1 0 n start (ofBytes (utf8 s)).reverse (ofBytes (utf8 t)) =
      spans 0 start (byteLength s)
        ((n.partsFrom s.reverse t).1 :: (n.partsFrom s.reverse t).2) := by
  induction t generalizing n start s with
  | nil =>
    rw [ofBytes_utf8_nil, ranges, List.length_reverse, length_ofBytes_utf8,
      if_pos (Nat.succ_le_of_lt hstart)]
    rfl
  | cons c t ih =>
    have hfeed := hn.feed .forward s.reverse c
    have hleft : c :: s.reverse = (s ++ [c]).reverse := by simp
    have hconcat : byteLength (s ++ [c]) = byteLength s + c.utf8Size := by simp
    have hnext : byteLength s < byteLength (s ++ [c]) :=
      hconcat ▸ Nat.lt_add_of_pos_right c.utf8Size_pos
    rw [partsFrom, hleft]
    dsimp only
    split
    next h =>
      have hascii : c.toNat < 128 := by
        by_contra hc
        simp [startsPart_of_le_toNat (Nat.le_of_not_lt hc)] at h
      have hcut : (n.isTop && startsPart c && decide (start + 1 ≤ byteLength s)) = true := by
        rw [h, decide_eq_true (Nat.succ_le_of_lt hstart), Bool.and_true]
      rw [ranges_cut hascii hcut, Nat.add_zero, ih hfeed hnext, hconcat, ← spans_cons_cons]
      rfl
    next h =>
      have hpass : (n.isTop && startsPart c && decide (start + 1 ≤ byteLength s)) = false := by
        rw [Bool.eq_false_of_not_eq_true h, Bool.false_and]
      rw [ranges_pass hn (fun b => startsPart_of_le_toNat) hpass, ih hfeed (hstart.trans hnext),
        hconcat, ← spans_cons_cons]

theorem pieceRanges_eq (hseparator : separator.toNat < 128) (s : List Char) :
    pieceRanges separator s = spans 1 0 0 (splitTop separator s) :=
  ranges_pieces (s := []) hseparator valid_top (Nat.le_refl 0) s

theorem partRanges_eq (s : List Char) : partRanges s = spans 0 0 0 (splitCompound s) := by
  cases s with
  | nil => rfl
  | cons c s =>
    have hfirst : partRanges (c :: s) = ranges startsPart 1 0 (top.feed .forward [] c) 0
        (ofBytes (utf8 [c])).reverse (ofBytes (utf8 s)) :=
      ranges_pass (s := []) valid_top (fun b => startsPart_of_le_toNat) (by simp) s
    rw [hfirst, ranges_parts (valid_top.feed .forward [] c)
      (Text.byteLength_pos (List.cons_ne_nil c [])), splitCompound, spans_cons_cons]
    simp

theorem combinatorPlaceFrom?_of_le_toNat (hbytes : ∀ b ∈ bytes, 128 ≤ b.toNat) (hn : n.Valid)
    (left : List Char) :
    combinatorPlaceFrom? n (bytes ++ left) = combinatorPlaceFrom? n left := by
  induction bytes with
  | nil => rfl
  | cons b bytes ih =>
    obtain ⟨hb, hbytes⟩ := List.forall_mem_cons.1 hbytes
    rw [List.cons_append, combinatorPlaceFrom?,
      combinatorAt_of_isJoining (isJoining_of_le_toNat hb), ite_self, feed_of_le_toNat hb hn]
    exact ih hbytes

theorem head?_dropWhile_utf8 {e : Char} (he : e.toNat < 128) (s : List Char) :
    ((ofBytes (utf8 s)).reverse.dropWhile Text.isAsciiBlank).head? = some e ↔
      (s.reverse.dropWhile Text.isAsciiBlank).head? = some e := by
  induction s using List.reverseRecOn with
  | nil => rfl
  | append_singleton s c ih =>
    rw [reverse_ofBytes_utf8_concat, List.reverse_concat]
    rcases Nat.lt_or_ge c.toNat 128 with hascii | hascii
    · rw [ofBytes_encode_ascii hascii, List.reverse_singleton, List.singleton_append,
        List.dropWhile_cons, List.dropWhile_cons]
      split
      · exact ih
      · rfl
    · obtain ⟨b, block, hblock⟩ := List.exists_cons_of_ne_nil
        (List.reverse_ne_nil_iff.2 (ofBytes_encode_ne_nil c))
      have hb : 128 ≤ b.toNat := le_of_mem_ofBytes_encode hascii
        (List.mem_reverse.1 (hblock ▸ List.mem_cons_self))
      have hblank : ¬Text.isAsciiBlank b := by simp [isAsciiBlank_of_le_toNat hb]
      have hblank' : ¬Text.isAsciiBlank c := by simp [isAsciiBlank_of_le_toNat hascii]
      rw [hblock, List.cons_append, List.dropWhile_cons_of_neg hblank,
        List.dropWhile_cons_of_neg hblank']
      simp [ne_of_le_toNat hb he, ne_of_le_toNat hascii he]

theorem combinatorAt_utf8 (s : List Char) (c : Char) :
    combinatorAt (ofBytes (utf8 s)).reverse c = combinatorAt s.reverse c := by
  have hchild := head?_dropWhile_utf8 (by decide : '>'.toNat < 128) s
  have hsibling := head?_dropWhile_utf8 (by decide : '~'.toNat < 128) s
  simp only [combinatorAt_eq, ne_eq, hchild, hsibling]

theorem combinatorPlaceFrom?_utf8 (hn : n.Valid) (s right : List Char) :
    combinatorPlaceFrom? n (ofBytes (utf8 s)).reverse =
      (combinatorFrom n s.reverse right).map fun p => (byteLength p.1, p.2.1) := by
  induction s using List.reverseRecOn generalizing n right with
  | nil => rfl
  | append_singleton s c ih =>
    rw [reverse_ofBytes_utf8_concat, List.reverse_concat, combinatorFrom]
    rcases Nat.lt_or_ge c.toNat 128 with hascii | hascii
    · rw [ofBytes_encode_ascii hascii, List.reverse_singleton, List.singleton_append,
        combinatorPlaceFrom?, combinatorAt_utf8, feed_congr (escaped_reverse_utf8 s)]
      cases if n.isTop then combinatorAt s.reverse c else none with
      | some k =>
        simp only [List.length_reverse, length_ofBytes_utf8, Option.map_some, List.reverse_reverse]
      | none => exact ih (hn.feed .backward s.reverse c) (c :: right)
    · have hblock : ∀ b ∈ (ofBytes (String.utf8EncodeChar c)).reverse, 128 ≤ b.toNat :=
        fun b hb => le_of_mem_ofBytes_encode hascii (List.mem_reverse.1 hb)
      rw [combinatorPlaceFrom?_of_le_toNat hblock hn,
        combinatorAt_of_isJoining (isJoining_of_le_toNat hascii), ite_self,
        feed_of_le_toNat hascii hn]
      exact ih hn (c :: right)

theorem combinatorPlace?_eq (s : List Char) :
    combinatorPlace? s = (lastCombinator s).map fun p => (byteLength p.1, p.2.1) :=
  combinatorPlaceFrom?_utf8 valid_top s []

theorem exists_of_lastCombinator {l r : List Char} (h : lastCombinator s = some (l, k, r)) :
    ∃ c, s = l ++ c :: r ∧ c.toNat < 128 := by
  obtain ⟨u, c, m, hrev, hr, -, -, hat⟩ := exists_passes h
  refine ⟨c, ?_, ?_⟩
  · rw [← List.reverse_inj, hrev, hr]
    simp
  · by_contra hc
    rw [combinatorAt_of_isJoining (isJoining_of_le_toNat (Nat.le_of_not_lt hc))] at hat
    exact nomatch hat

theorem slices_flatten (l : List Char) (parts : List (List Char)) :
    (spans 0 (byteLength l) (byteLength l) parts).mapM
      (fun r => slice (l ++ parts.flatten) r.1 r.2) = .ok parts := by
  induction parts generalizing l with
  | nil => rfl
  | cons part parts ih =>
    rw [List.flatten_cons, ← List.append_assoc, spans, ← Text.byteLength_append, Nat.add_zero]
    exact mapM_cons_ok (Text.slice_append l part parts.flatten) (ih (l ++ part))

theorem slices_intercalate (hseparator : separator.toNat < 128) (l piece : List Char)
    (pieces : List (List Char)) :
    (spans 1 (byteLength l) (byteLength l) (piece :: pieces)).mapM
      (fun r => slice (l ++ [separator].intercalate (piece :: pieces)) r.1 r.2) =
        .ok (piece :: pieces) := by
  induction pieces generalizing l piece with
  | nil =>
    have h := Text.slice_append l piece []
    rw [List.append_nil, Text.byteLength_append] at h
    rw [List.intercalate_singleton]
    exact mapM_cons_ok h rfl
  | cons next pieces ih =>
    have hfirst := Text.slice_append l piece
      ([separator] ++ [separator].intercalate (next :: pieces))
    have hrest := ih (l ++ piece ++ [separator]) next
    rw [byteLength_concat_ascii hseparator, List.append_assoc _ [separator]] at hrest
    rw [List.intercalate_cons_cons, List.append_assoc piece, ← List.append_assoc l piece, spans,
      ← Text.byteLength_append]
    exact mapM_cons_ok hfirst hrest

theorem intercalate_pieces (separator : Char) (n : Nesting) (left s : List Char) :
    [separator].intercalate (pieces separator n left s) = s := by
  induction s generalizing n left with
  | nil => rfl
  | cons c s ih =>
    obtain ⟨piece, more, hpieces⟩ := List.exists_cons_of_ne_nil
      (pieces_ne_nil separator (n.feed .forward left c) (c :: left) s)
    have hrest := ih (n.feed .forward left c) (c :: left)
    rw [pieces]
    rw [hpieces] at hrest ⊢
    split
    next h =>
      rw [List.intercalate_cons_cons, hrest, eq_of_beq (Bool.and_eq_true_iff.1 h).1]
      rfl
    next => rw [List.modifyHead_cons, List.intercalate_cons_cons_left, hrest]

theorem startsPart_of_mem_partsFrom (n : Nesting) (left s : List Char) :
    ∀ part ∈ (n.partsFrom left s).2, ∃ c rest, part = c :: rest ∧ startsPart c = true := by
  induction s generalizing n left with
  | nil => exact nofun
  | cons c s ih =>
    have hlater := ih (n.feed .forward left c) (c :: left)
    rw [partsFrom]
    dsimp only
    split
    next h =>
      exact List.forall_mem_cons.2 ⟨⟨c, _, rfl, (Bool.and_eq_true_iff.1 h).2⟩, hlater⟩
    next => exact hlater

end Nesting

open Nesting

theorem intercalate_splitTop (separator : Char) (s : List Char) :
    [separator].intercalate (splitTop separator s) = s :=
  intercalate_pieces separator top [] s

theorem startsPart_of_mem_tail {s part : List Char} (h : part ∈ (splitCompound s).tail) :
    ∃ c rest, part = c :: rest ∧ startsPart c = true := by
  cases s with
  | nil => exact nomatch h
  | cons c s => exact startsPart_of_mem_partsFrom _ _ s part h

end DocTree
