import DocTree.Proofs.Selector.Places

/-! Scans of the bytes of a text.  Brackets, parentheses, quotes and backslashes are single bytes,
and the bytes of other characters are none of them, so that the scans of the bytes go through the
states of the scans of the characters. -/

namespace DocTree.Nesting

def utf8 (s : List Char) : List UInt8 := s.flatMap String.utf8EncodeChar

/-- Bytes as a scan reads them: each stands for the character with its number. -/
def ofBytes (bytes : List UInt8) : List Char := bytes.map fun b => Char.ofNat b.toNat

def bytePlace (s : List Char) (i : Nat) : Nat := (utf8 (s.take i)).length

variable {n : Nesting} {c : Char} {s left left' : List Char} {i : Nat}

theorem toNat_ofNat_byte (b : UInt8) : (Char.ofNat b.toNat).toNat = b.toNat := by
  have hb : b.toNat.isValidChar := .inl (by have := b.toNat_lt; omega)
  rw [Char.toNat_ofNat, if_pos hb]

theorem ofBytes_encode_ascii (hc : c.toNat < 128) : ofBytes (String.utf8EncodeChar c) = [c] := by
  have hle : c.val.toNat ≤ 127 := Nat.le_of_lt_succ hc
  have hbyte : (UInt8.ofNat c.val.toNat).toNat = c.toNat := by
    rw [UInt8.toNat_ofNat']
    exact Nat.mod_eq_of_lt (by omega)
  simp only [String.utf8EncodeChar, hle, if_true, ofBytes, List.map_cons, List.map_nil, hbyte,
    Char.ofNat_toNat]

theorem le_of_mem_encode (hc : 128 ≤ c.toNat) {b : UInt8} (hb : b ∈ String.utf8EncodeChar c) :
    128 ≤ b.toNat := by
  have hlt : ¬ c.val.toNat ≤ 127 := Nat.not_le.2 hc
  have hbyte : ∀ m, 128 ≤ m → m < 256 → 128 ≤ (UInt8.ofNat m).toNat := by
    intro m hm hm'
    rwa [UInt8.toNat_ofNat', Nat.mod_eq_of_lt hm']
  simp only [String.utf8EncodeChar, hlt, if_false] at hb
  split_ifs at hb
  all_goals simp only [List.mem_cons, List.not_mem_nil, or_false] at hb
  · rcases hb with rfl | rfl <;> exact hbyte _ (by omega) (by omega)
  · rcases hb with rfl | rfl | rfl <;> exact hbyte _ (by omega) (by omega)
  · rcases hb with rfl | rfl | rfl | rfl <;> exact hbyte _ (by omega) (by omega)

theorem le_of_mem_ofBytes_encode (hc : 128 ≤ c.toNat) {e : Char}
    (he : e ∈ ofBytes (String.utf8EncodeChar c)) : 128 ≤ e.toNat := by
  obtain ⟨b, hb, rfl⟩ := List.mem_map.1 he
  rw [toNat_ofNat_byte]
  exact le_of_mem_encode hc hb

theorem ne_of_le_toNat {e : Char} (hc : 128 ≤ c.toNat) (he : e.toNat < 128) : c ≠ e :=
  fun h => absurd (h ▸ hc) (Nat.not_le.2 he)

theorem feed_of_le_toNat (hc : 128 ≤ c.toNat) (hn : n.Valid) (d : Direction) (left : List Char) :
    n.feed d left c = n := by
  have hne : ∀ e : Char, e.toNat < 128 → (c == e) = false :=
    fun e he => beq_eq_false_iff_ne.2 (ne_of_le_toNat hc he)
  cases hquote : n.quote with
  | some q =>
    have hq : q.toNat < 128 := by
      have hq := (hn q hquote).1
      simp only [isQuote, Bool.or_eq_true, beq_iff_eq] at hq
      rcases hq with rfl | rfl <;> decide
    simp only [feed, hquote, hne q hq, Bool.false_and, Bool.false_eq_true, if_false]
  | none =>
    have hquotes : isQuote c = false := by simp [isQuote, hne]
    cases d <;>
      simp [feed, feedPlain, hquote, hquotes, hne, Direction.openBracket, Direction.closeBracket,
        Direction.openParen, Direction.closeParen]

theorem feed_congr (h : escaped left = escaped left') (n : Nesting) (d : Direction) (c : Char) :
    n.feed d left c = n.feed d left' c := by
  simp only [feed, feedPlain, h]

theorem scan_of_le_toNat (hs : ∀ c ∈ s, 128 ≤ c.toNat) (hn : n.Valid) (left : List Char) :
    n.scan left s = n := by
  induction s generalizing left with
  | nil => rfl
  | cons c s ih =>
    obtain ⟨hc, hs⟩ := List.forall_mem_cons.1 hs
    rw [scan, feed_of_le_toNat hc hn, ih hs]

theorem scanBack_of_le_toNat (hs : ∀ c ∈ s, 128 ≤ c.toNat) (hn : n.Valid) (left : List Char) :
    n.scanBack left s = n := by
  induction s generalizing left with
  | nil => rfl
  | cons c s ih =>
    obtain ⟨hc, hs⟩ := List.forall_mem_cons.1 hs
    rw [scanBack, ih hs, feed_of_le_toNat hc hn]

theorem scanBack_append (n : Nesting) (left s t : List Char) :
    n.scanBack left (s ++ t) = (n.scanBack (s.reverse ++ left) t).scanBack left s := by
  induction s generalizing left with
  | nil => rfl
  | cons c s ih => simp [scanBack, ih]

theorem scan_encode (h : escaped left = escaped left') (hn : n.Valid) (c : Char) :
    n.scan left' (ofBytes (String.utf8EncodeChar c)) = n.feed .forward left c := by
  rcases Nat.lt_or_ge c.toNat 128 with hc | hc
  · rw [ofBytes_encode_ascii hc, feed_congr h]
    rfl
  · rw [scan_of_le_toNat (fun e => le_of_mem_ofBytes_encode hc) hn, feed_of_le_toNat hc hn]

theorem scanBack_encode (h : escaped left = escaped left') (hn : n.Valid) (c : Char) :
    n.scanBack left' (ofBytes (String.utf8EncodeChar c)) = n.feed .backward left c := by
  rcases Nat.lt_or_ge c.toNat 128 with hc | hc
  · rw [ofBytes_encode_ascii hc, feed_congr h]
    rfl
  · rw [scanBack_of_le_toNat (fun e => le_of_mem_ofBytes_encode hc) hn, feed_of_le_toNat hc hn]

theorem escaped_encode (h : escaped left = escaped left') (c : Char) :
    escaped ((ofBytes (String.utf8EncodeChar c)).reverse ++ left') = escaped (c :: left) := by
  rcases Nat.lt_or_ge c.toNat 128 with hc | hc
  · rw [ofBytes_encode_ascii hc, List.reverse_singleton, List.singleton_append]
    by_cases hslash : c = '\\'
    · rw [hslash, escaped_backslash, escaped_backslash, h]
    · rw [escaped_cons_of_ne hslash, escaped_cons_of_ne hslash]
  · have hslash : ∀ e : Char, 128 ≤ e.toNat → e ≠ '\\' :=
      fun e he => ne_of_le_toNat he (by decide)
    rw [escaped_cons_of_ne (hslash c hc)]
    cases hblock : (ofBytes (String.utf8EncodeChar c)).reverse with
    | nil => simp [ofBytes] at hblock
    | cons e block =>
      refine escaped_cons_of_ne (hslash e (le_of_mem_ofBytes_encode hc ?_)) _
      rw [← List.mem_reverse, hblock]
      exact List.mem_cons_self

theorem ofBytes_utf8_cons (c : Char) (s : List Char) :
    ofBytes (utf8 (c :: s)) = ofBytes (String.utf8EncodeChar c) ++ ofBytes (utf8 s) := by
  rw [utf8, List.flatMap_cons, ofBytes, List.map_append]
  rfl

theorem scan_utf8 (h : escaped left = escaped left') (hn : n.Valid) (s : List Char) :
    n.scan left' (ofBytes (utf8 s)) = n.scan left s := by
  induction s generalizing n left left' with
  | nil => rfl
  | cons c s ih =>
    rw [ofBytes_utf8_cons, scan_append, scan_encode h hn]
    exact ih (escaped_encode h c).symm (hn.feed .forward left c)

theorem scanBack_utf8 (h : escaped left = escaped left') (hn : n.Valid) (s : List Char) :
    n.scanBack left' (ofBytes (utf8 s)) = n.scanBack left s := by
  induction s generalizing left left' with
  | nil => rfl
  | cons c s ih =>
    rw [ofBytes_utf8_cons, scanBack_append, ih (escaped_encode h c).symm]
    exact scanBack_encode h (hn.scanBack _ s) c

theorem escaped_utf8 (h : escaped left = escaped left') (s : List Char) :
    escaped ((ofBytes (utf8 s)).reverse ++ left') = escaped (s.reverse ++ left) := by
  induction s generalizing left left' with
  | nil => exact h.symm
  | cons c s ih =>
    rw [ofBytes_utf8_cons, List.reverse_append, List.append_assoc, List.reverse_cons,
      List.append_assoc]
    exact ih (escaped_encode h c).symm

theorem ofBytes_utf8_split (s : List Char) (i : Nat) :
    (ofBytes (utf8 s)).take (bytePlace s i) = ofBytes (utf8 (s.take i)) ∧
      (ofBytes (utf8 s)).drop (bytePlace s i) = ofBytes (utf8 (s.drop i)) := by
  have hsplit : ofBytes (utf8 s) = ofBytes (utf8 (s.take i)) ++ ofBytes (utf8 (s.drop i)) := by
    conv_lhs => rw [← List.take_append_drop i s, utf8, List.flatMap_append, ofBytes,
      List.map_append]
    rfl
  have hlength : bytePlace s i = (ofBytes (utf8 (s.take i))).length := by simp [bytePlace, ofBytes]
  rw [hsplit, hlength, List.take_left, List.drop_left]
  exact ⟨rfl, rfl⟩

theorem before_utf8 (s : List Char) (i : Nat) :
    before (ofBytes (utf8 s)) (bytePlace s i) = before s i := by
  rw [before, (ofBytes_utf8_split s i).1, scan_utf8 rfl valid_top]
  rfl

theorem after_utf8 (s : List Char) (i : Nat) :
    after (ofBytes (utf8 s)) (bytePlace s i) = after s i := by
  have hescaped : escaped (ofBytes (utf8 (s.take i))).reverse = escaped (s.take i).reverse := by
    simpa using escaped_utf8 (rfl : escaped [] = escaped []) (s.take i)
  rw [after, (ofBytes_utf8_split s i).1, (ofBytes_utf8_split s i).2,
    scanBack_utf8 hescaped.symm valid_top]
  rfl

theorem getElem?_bytePlace (hi : s[i]? = some c) (hc : c.toNat < 128) :
    (ofBytes (utf8 s))[bytePlace s i]? = some c := by
  obtain ⟨hlt, rfl⟩ := List.getElem?_eq_some_iff.1 hi
  rw [← List.head?_drop, (ofBytes_utf8_split s i).2, List.drop_eq_getElem_cons hlt,
    ofBytes_utf8_cons, ofBytes_encode_ascii hc]
  rfl

theorem Balanced.of_utf8 (h : Balanced (ofBytes (utf8 s))) : Balanced s where
  admits i c hi := by
    rcases Nat.lt_or_ge c.toNat 128 with hc | hc
    · rw [← before_utf8]
      exact h.admits _ c (getElem?_bytePlace hi hc)
    · exact admits_of_ne (ne_of_le_toNat hc (by decide)) (ne_of_le_toNat hc (by decide))
  closed := by
    rw [← scan_utf8 rfl valid_top]
    exact h.closed

/-- In balanced bytes the two scans are in the same state at every place, and at a byte that is no
bracket or parenthesis both are at top level or neither is.  These are the states by which a text
with those bytes is split and by which its last combinator is found. -/
theorem Balanced.scans_agree {bytes : List UInt8} (h : Balanced (ofBytes bytes)) :
    (∀ i, before (ofBytes bytes) i = after (ofBytes bytes) i) ∧
    (∀ i c, (ofBytes bytes)[i]? = some c → isPaired c = false →
      (after (ofBytes bytes) (i + 1)).isTop = (before (ofBytes bytes) i).isTop) ∧
    ∀ s, utf8 s = bytes →
      let fromStart := fun i => (before (ofBytes bytes) (bytePlace s i)).isTop
      let fromEnd := fun i => (after (ofBytes bytes) (bytePlace s (i + 1))).isTop
      (∀ separator, splitTop separator s = piecesBy fromStart separator s) ∧
      splitCompound s = partsBy fromStart s ∧
      lastCombinator s = combinatorBy fromEnd s ∧ lastCombinator s = combinatorBy fromStart s := by
  refine ⟨h.before_eq_after, fun i c => h.isTop_after_succ, ?_⟩
  rintro s rfl
  simp only [before_utf8, after_utf8]
  exact ⟨(splitTop_eq_piecesBy · s), splitCompound_eq_partsBy s, lastCombinator_eq_combinatorBy s,
    h.of_utf8.lastCombinator_eq⟩

theorem scans_agree_quoted :
    let s := "é[t=\"](\\\"'\"]:f(>) > b".toList
    let bytes := utf8 s
    Balanced (ofBytes bytes) ∧
    (∀ i, before (ofBytes bytes) i = after (ofBytes bytes) i) ∧
    (∀ i c, (ofBytes bytes)[i]? = some c → isPaired c = false →
      (after (ofBytes bytes) (i + 1)).isTop = (before (ofBytes bytes) i).isTop) ∧
    lastCombinator s =
      combinatorBy (fun i => (before (ofBytes bytes) (bytePlace s i)).isTop) s := by
  have h : Balanced (ofBytes (utf8 "é[t=\"](\\\"'\"]:f(>) > b".toList)) := by decide +kernel
  obtain ⟨hstates, htests, hscans⟩ := h.scans_agree
  exact ⟨h, hstates, htests, (hscans _ rfl).2.2.2⟩

end DocTree.Nesting
