import DocTree.Proofs.Selector.Cuts

/-! Reading of selectors by places among the bytes.  Every cut of the text and every look at a
single byte may be a fault; none ever is, and the selectors are those that are read by
characters. -/

namespace DocTree.Sliced

open Nesting

open Text (Fault byteLength slice find? IsEdge)

def byteAt (s : List Char) (i : Nat) : Except Fault Char :=
  match (ofBytes (utf8 s))[i]? with
  | some b => return b
  | none => throw (.byte i)

def pieces (separator : Char) (s : List Char) : Except Fault (List (List Char)) :=
  (pieceRanges separator s).mapM fun r => slice s r.1 r.2

def parts (s : List Char) : Except Fault (List (List Char)) :=
  (partRanges s).mapM fun r => slice s r.1 r.2

def sides (s : List Char) : Except Fault (Option (List Char × Combinator × List Char)) :=
  match combinatorPlace? s with
  | none => return none
  | some (i, k) => return some (← slice s 0 i, k, ← slice s (i + 1) (byteLength s))

def isQuoted (s : List Char) : Except Fault Bool :=
  if 2 ≤ byteLength s then do
    let first ← byteAt s 0
    let last ← byteAt s (byteLength s - 1)
    return isQuote first && last == first
      && !escaped ((ofBytes (utf8 s)).take (byteLength s - 1)).reverse
  else return false

def unquote (s : List Char) : Except Fault (List Char) := do
  if ← isQuoted s then return Predicate.unescape (← slice s 1 (byteLength s - 1))
  else return Predicate.unescape s

def dropSign (before : List Char) (operator : AttributeOperator) : Except Fault (List Char) :=
  if operator = .equals then return before else slice before 0 (byteLength before - 1)

def ofAttribute (inner : List Char) : Except Fault Predicate :=
  match find? '=' inner with
  | none =>
    let name := Text.trim inner
    return if name = [] then .never else .hasAttribute (.ofList name)
  | some i =>
    if i = 0 then return .never
    else do
      let before ← slice inner 0 i
      let value ← slice inner (i + 1) (byteLength inner)
      let operator := Predicate.operatorOf (some (← byteAt before (byteLength before - 1)))
      let name := Text.trim (← dropSign before operator)
      if name = [] then return .never
      else return .attribute (.ofList name) operator (.ofList (← unquote (Text.trim value)))

def numbers (argument : List Char) : Except Fault (Option (Int × Int)) :=
  let s := argument.filter (!Text.isBlank ·)
  if s = ['o', 'd', 'd'] then return some (2, 1)
  else if s = ['e', 'v', 'e', 'n'] then return some (2, 0)
  else if s = [] then return none
  else match find? 'n' s with
    | none => return (NthPattern.offset? s).map (0, ·)
    | some i => do
      let before ← slice s 0 i
      let rest ← slice s (i + 1) (byteLength s)
      return (NthPattern.factor? before).bind fun factor =>
        (if rest = [] then some 0 else NthPattern.offset? rest).map (factor, ·)

def nth (s : List Char) : Except Fault (Option (Bool × NthPattern)) :=
  match find? '(' s with
  | none => return none
  | some i => do
    let rest ← slice s (i + 1) (byteLength s)
    if rest.getLast? = some ')' then
      match Predicate.counted.lookup (.ofList (← slice s 0 i)) with
      | none => return none
      | some (ofType, reverse) =>
        return (← numbers rest.dropLast).map fun p => (ofType, ⟨p.1, p.2, reverse⟩)
    else return none

def ofPseudoClass (s : List Char) : Except Fault (Option Predicate) :=
  match Predicate.fixed.lookup (.ofList s) with
  | some p => return some p
  | none => do
    match ← nth s with
    | none => return some .never
    | some (ofType, pattern) =>
      return if pattern.matchesAll then none
        else some (if ofType then .nthOfType pattern else .nthChild pattern)

def ofPart (s : List Char) : Except Fault (Option Predicate) := do
  match ← byteAt s 0 with
  | '.' =>
    let name ← slice s 1 (byteLength s)
    return some (if name = [] then .never else .className (.ofList name))
  | '#' =>
    let name ← slice s 1 (byteLength s)
    return some (if name = [] then .never else .id (.ofList name))
  | '[' =>
    if s.tail.getLast? = some ']' then return some (← ofAttribute s.tail.dropLast)
    else return some .never
  | ':' => ofPseudoClass s
  | _ => return some (.tag (.ofList s))

def ofCompound (s : List Char) : Except Fault Selector := do
  return match (← (← parts s).mapM ofPart).filterMap id with
    | [] => .simple (.tag "*")
    | [p] => .simple p
    | ps => .all ps

/-- The byte is the character, or both are beyond ASCII. -/
def SeenAs (b c : Char) : Prop := b = c ∨ (128 ≤ b.toNat ∧ 128 ≤ c.toNat)

variable {b c separator : Char}

theorem slices_around (hc : c.toNat < 128) (l r : List Char) :
    slice (l ++ c :: r) 0 (byteLength l) = .ok l ∧
      slice (l ++ c :: r) (byteLength l + 1) (byteLength (l ++ c :: r)) = .ok r := by
  refine ⟨Text.slice_before l (c :: r), ?_⟩
  have h := Text.slice_after (l ++ [c]) r
  rwa [byteLength_concat_ascii hc, List.append_assoc] at h

theorem pieces_eq (hseparator : separator.toNat < 128) (s : List Char) :
    pieces separator s = .ok (splitTop separator s) := by
  obtain ⟨piece, more, hpieces⟩ := List.exists_cons_of_ne_nil (pieces_ne_nil separator top [] s)
  have hslices := slices_intercalate hseparator [] piece more
  have hjoined := intercalate_splitTop separator s
  rw [splitTop, hpieces] at hjoined
  rw [hjoined] at hslices
  rw [pieces, pieceRanges_eq hseparator, splitTop, hpieces]
  exact hslices

theorem parts_eq (s : List Char) : parts s = .ok (splitCompound s) := by
  have hslices := slices_flatten [] (splitCompound s)
  rw [flatten_splitCompound] at hslices
  rw [parts, partRanges_eq]
  exact hslices

theorem sides_eq (s : List Char) : sides s = .ok (lastCombinator s) := by
  rw [sides, combinatorPlace?_eq]
  cases h : lastCombinator s with
  | none => rfl
  | some p =>
    obtain ⟨l, k, r⟩ := p
    obtain ⟨c, rfl, hc⟩ := exists_of_lastCombinator h
    obtain ⟨hl, hr⟩ := slices_around hc l r
    simp only [Option.map_some, hl, hr, ok_bind, pure_eq_ok]

theorem SeenAs.beq (h : SeenAs b c) {e : Char} (he : e.toNat < 128) : (b == e) = (c == e) := by
  rcases h with rfl | ⟨hb, hc⟩
  · rfl
  · rw [beq_of_le_toNat he hb, beq_of_le_toNat he hc]

theorem SeenAs.eq_of_lt (h : SeenAs b c) (hc : c.toNat < 128) : b = c :=
  h.resolve_right fun hboth => absurd hc (Nat.not_lt.2 hboth.2)

theorem SeenAs.startsPart_eq (h : SeenAs b c) : startsPart b = startsPart c := by
  rw [startsPart, startsPart, h.beq (by decide), h.beq (by decide), h.beq (by decide),
    h.beq (by decide)]

theorem SeenAs.isQuote_eq (h : SeenAs b c) : isQuote b = isQuote c := by
  rw [isQuote, isQuote, h.beq (by decide), h.beq (by decide)]

theorem operatorOf_of_le_toNat (hc : 128 ≤ c.toNat) : Predicate.operatorOf (some c) = .equals := by
  unfold Predicate.operatorOf
  split
  case h_6 => rfl
  all_goals
    next h =>
      cases h
      exact absurd hc (by decide)

theorem SeenAs.operatorOf_eq (h : SeenAs b c) :
    Predicate.operatorOf (some b) = Predicate.operatorOf (some c) := by
  rcases h with rfl | ⟨hb, hc⟩
  · rfl
  · rw [operatorOf_of_le_toNat hb, operatorOf_of_le_toNat hc]

theorem seenAs_of_mem_encode (hb : b ∈ ofBytes (String.utf8EncodeChar c)) : SeenAs b c := by
  rcases Nat.lt_or_ge c.toNat 128 with hc | hc
  · rw [ofBytes_encode_ascii hc] at hb
    exact .inl (List.mem_singleton.1 hb)
  · exact .inr ⟨le_of_mem_ofBytes_encode hc hb, hc⟩

theorem byteAt_first (c : Char) (s : List Char) :
    ∃ b, byteAt (c :: s) 0 = .ok b ∧ SeenAs b c := by
  obtain ⟨b, block, hblock⟩ := List.exists_cons_of_ne_nil (ofBytes_encode_ne_nil c)
  refine ⟨b, ?_, seenAs_of_mem_encode (hblock ▸ List.mem_cons_self)⟩
  rw [byteAt, ofBytes_utf8_cons, hblock]
  rfl

theorem byteAt_last (s : List Char) (c : Char) :
    ∃ b, byteAt (s ++ [c]) (byteLength (s ++ [c]) - 1) = .ok b ∧ SeenAs b c := by
  have hne := ofBytes_encode_ne_nil c
  refine ⟨(ofBytes (String.utf8EncodeChar c)).getLast hne, ?_,
    seenAs_of_mem_encode (List.getLast_mem hne)⟩
  have hlast : (ofBytes (utf8 (s ++ [c])))[byteLength (s ++ [c]) - 1]? =
      some ((ofBytes (String.utf8EncodeChar c)).getLast hne) := by
    rw [← length_ofBytes_utf8, ← List.getLast?_eq_getElem?, ← List.head?_reverse,
      reverse_ofBytes_utf8_concat, List.head?_append, List.head?_reverse,
      List.getLast?_eq_some_getLast hne]
    rfl
  rw [byteAt, hlast]
  rfl

theorem toNat_lt_of_isQuote (hc : isQuote c = true) : c.toNat < 128 := by
  by_contra hge
  simp [isQuote, beq_of_le_toNat _ (Nat.le_of_not_lt hge)] at hc

theorem isQuoted_singleton (c : Char) : isQuoted [c] = .ok false := by
  rw [isQuoted]
  split
  next hlong =>
    obtain ⟨b, hb, hseen⟩ := byteAt_first c []
    obtain ⟨d, hd, -⟩ := byteAt_last [] c
    have hquote : isQuote c = false := by
      by_contra hquote
      have hascii := toNat_lt_of_isQuote (Bool.eq_true_of_not_eq_false hquote)
      have hlength := byteLength_concat_ascii hascii []
      simp only [List.nil_append, Text.byteLength_nil] at hlength
      omega
    rw [List.nil_append] at hd
    rw [hb, hd, ok_bind, ok_bind, hseen.isQuote_eq, hquote]
    rfl
  next => rfl

theorem isQuoted_eq (q e : Char) (m : List Char) :
    isQuoted (q :: (m ++ [e])) =
      .ok (isQuote q && e == q && !escaped (q :: m).reverse) := by
  obtain ⟨b, hb, hfirst⟩ := byteAt_first q (m ++ [e])
  obtain ⟨d, hd, hlast⟩ := byteAt_last (q :: m) e
  have hlong : 2 ≤ byteLength (q :: (m ++ [e])) := by
    have hq := q.utf8Size_pos
    have he := e.utf8Size_pos
    simp only [Text.byteLength_cons, Text.byteLength_append]
    omega
  rw [List.cons_append] at hd
  rw [isQuoted, if_pos hlong, hb, hd, ok_bind, ok_bind, hfirst.isQuote_eq, pure_eq_ok,
    Except.ok.injEq]
  cases hquote : isQuote q with
  | false => rfl
  | true =>
    have hascii := toNat_lt_of_isQuote hquote
    obtain rfl := hfirst.eq_of_lt hascii
    rw [hlast.beq hascii, Bool.true_and]
    cases heq : e == b with
    | false => rfl
    | true =>
      obtain rfl : e = b := eq_of_beq heq
      have hlength := byteLength_concat_ascii hascii (e :: m)
      rw [List.cons_append] at hlength
      rw [hlength, Nat.add_sub_cancel, ← List.cons_append, ofBytes_utf8_append,
        ← length_ofBytes_utf8, List.take_left, escaped_reverse_utf8]

theorem quoted?_eq (q e : Char) (m : List Char) :
    Predicate.quoted? (q :: (m ++ [e])) =
      if isQuote q && e == q && !escaped (q :: m).reverse then some m else none := by
  rw [Predicate.quoted?, List.getLast?_concat, List.dropLast_concat, ← List.cons_append,
    List.dropLast_concat]
  rfl

theorem slice_quoted (hc : c.toNat < 128) (m : List Char) :
    slice (c :: (m ++ [c])) 1 (byteLength (c :: (m ++ [c])) - 1) = .ok m := by
  have hone : byteLength [c] = 1 := byteLength_concat_ascii hc []
  have hlength : byteLength (c :: (m ++ [c])) = byteLength (c :: m) + 1 :=
    byteLength_concat_ascii hc (c :: m)
  have h := Text.slice_append [c] m [c]
  rw [hone] at h
  rw [hlength, Nat.add_sub_cancel]
  exact h

theorem unquote_eq (s : List Char) : unquote s = .ok (Predicate.unquote s) := by
  rw [unquote, Predicate.unquote]
  rcases s with _ | ⟨q, s⟩
  · rfl
  rcases List.eq_nil_or_concat s with rfl | ⟨m, e, rfl⟩
  · have hnone : Predicate.quoted? [q] = none := by simp [Predicate.quoted?]
    rw [isQuoted_singleton, hnone]
    rfl
  · rw [List.concat_eq_append, isQuoted_eq, quoted?_eq, ok_bind]
    split
    next h =>
      obtain ⟨hquotes, -⟩ := Bool.and_eq_true_iff.1 h
      obtain ⟨hquote, heq⟩ := Bool.and_eq_true_iff.1 hquotes
      rw [eq_of_beq heq, slice_quoted (toNat_lt_of_isQuote hquote)]
      rfl
    next => rfl

theorem dropSign_eq (l : List Char) (c : Char) :
    dropSign (l ++ [c]) (Predicate.operatorOf (some c)) =
      .ok (if Predicate.operatorOf (some c) = .equals then l ++ [c] else l) := by
  rw [dropSign]
  split
  next => rfl
  next h =>
    have hascii : c.toNat < 128 := by
      by_contra hc
      exact h (operatorOf_of_le_toNat (Nat.le_of_not_lt hc))
    rw [byteLength_concat_ascii hascii, Nat.add_sub_cancel, Text.slice_before]

theorem ofAttribute_eq (s : List Char) : ofAttribute s = .ok (Predicate.ofAttribute s) := by
  rw [ofAttribute, Predicate.ofAttribute]
  rcases Text.find?_cases '=' s with ⟨hfind, hdrop⟩ | ⟨l, r, rfl, hfind, htake, hdrop⟩
  · rw [hfind, hdrop]
    rfl
  · obtain ⟨hl, hr⟩ := slices_around (c := '=') (by decide) l r
    rw [hfind, hdrop, htake]
    rcases List.eq_nil_or_concat l with rfl | ⟨l, c, rfl⟩
    · rfl
    · obtain ⟨b, hb, hseen⟩ := byteAt_last l c
      have hpos : byteLength (l ++ [c]) ≠ 0 := (Text.byteLength_pos (by simp)).ne'
      rw [List.concat_eq_append] at hl hr ⊢
      simp only [hpos, if_false, hl, hr, hb, ok_bind, hseen.operatorOf_eq, dropSign_eq,
        unquote_eq, List.getLast?_concat, List.dropLast_concat]
      exact (apply_ite Except.ok _ _ _).symm

theorem numbers_eq (s : List Char) : numbers s = .ok (NthPattern.parse? s) := by
  rw [numbers, NthPattern.parse?, NthPattern.compact?]
  split_ifs
  · rfl
  · rfl
  · rfl
  · rcases Text.find?_cases 'n' (s.filter (!Text.isBlank ·)) with
      ⟨hfind, hdrop⟩ | ⟨l, r, hs, hfind, htake, hdrop⟩
    · rw [hfind, hdrop]
      rfl
    · obtain ⟨hl, hr⟩ := slices_around (c := 'n') (by decide) l r
      rw [hfind, hdrop, htake, hs]
      simp only [hl, hr, ok_bind]
      cases NthPattern.factor? l with
      | none => rfl
      | some factor =>
        by_cases hrest : r = []
        · simp [hrest]
        · cases NthPattern.offset? r <;> simp [hrest]

theorem nth_eq (s : List Char) : nth s = .ok (Predicate.nth? s) := by
  rw [nth, Predicate.nth?, Predicate.argument?]
  rcases Text.find?_cases '(' s with ⟨hfind, hdrop⟩ | ⟨l, r, rfl, hfind, htake, hdrop⟩
  · rw [hfind, hdrop]
    rfl
  · obtain ⟨hl, hr⟩ := slices_around (c := '(') (by decide) l r
    rw [hfind, hdrop, htake]
    simp only [hl, hr, ok_bind]
    split
    next =>
      rw [numbers_eq]
      cases Predicate.counted.lookup (String.ofList l) with
      | none => rfl
      | some kind => cases hnumbers : NthPattern.parse? r.dropLast <;> simp [hnumbers]
    next => rfl

theorem ofPseudoClass_eq (s : List Char) :
    ofPseudoClass s = .ok (Predicate.ofPseudoClass s) := by
  rw [ofPseudoClass, Predicate.ofPseudoClass, nth_eq]
  cases Predicate.fixed.lookup (String.ofList s) with
  | some p => rfl
  | none => cases Predicate.nth? s <;> rfl

theorem byteAt_first_ascii (hc : c.toNat < 128) (s : List Char) : byteAt (c :: s) 0 = .ok c := by
  obtain ⟨b, hb, hseen⟩ := byteAt_first c s
  rwa [hseen.eq_of_lt hc] at hb

theorem slice_tail (hc : c.toNat < 128) (s : List Char) :
    slice (c :: s) 1 (byteLength (c :: s)) = .ok s :=
  (slices_around hc [] s).2

theorem ofPart_of_startsPart (hc : startsPart c = false) (s : List Char) :
    Predicate.ofPart (c :: s) = some (.tag (.ofList (c :: s))) := by
  unfold Predicate.ofPart
  split
  case h_5 => rfl
  all_goals
    next heq =>
      obtain ⟨rfl, -⟩ := List.cons.inj heq
      exact absurd hc (by decide)

theorem ofPart_eq {s : List Char} (hs : s ≠ []) : ofPart s = .ok (Predicate.ofPart s) := by
  obtain ⟨c, s, rfl⟩ := List.exists_cons_of_ne_nil hs
  cases hc : startsPart c with
  | true =>
    simp only [startsPart, Bool.or_eq_true, beq_iff_eq] at hc
    rcases hc with ((rfl | rfl) | rfl) | rfl
    all_goals rw [ofPart, byteAt_first_ascii (by decide), ok_bind]
    · rw [slice_tail (by decide)]
      rfl
    · rw [slice_tail (by decide)]
      rfl
    · simp only [List.tail_cons, ofAttribute_eq, ok_bind, Predicate.ofPart]
      split <;> rfl
    · exact ofPseudoClass_eq (':' :: s)
  | false =>
    obtain ⟨b, hb, hseen⟩ := byteAt_first c s
    have hstart : startsPart b = false := hseen.startsPart_eq.trans hc
    rw [ofPart, hb, ok_bind, ofPart_of_startsPart hc]
    split
    case h_5 => rfl
    all_goals exact absurd hstart (by decide)

theorem ofCompound_eq (s : List Char) : ofCompound s = .ok (Selector.ofCompound s) := by
  have hparts : (splitCompound s).mapM ofPart = .ok ((splitCompound s).map Predicate.ofPart) :=
    mapM_eq_ok fun part hpart => ofPart_eq (ne_nil_of_mem_splitCompound hpart)
  rw [ofCompound, parts_eq, ok_bind, hparts, ok_bind, List.filterMap_map]
  rfl

def parse? (s : List Char) : Except Fault (Option Selector) :=
  if Text.trim s = [] then return none
  else match h : sides (Text.trim s) with
    | .error e => throw e
    | .ok none => do return some (← ofCompound (Text.trim s))
    | .ok (some (l, k, r)) =>
      have hsides : lastCombinator (Text.trim s) = some (l, k, r) :=
        Except.ok.inj ((sides_eq _).symm.trans h)
      have := length_of_lastCombinator hsides
      have := Text.length_trim_le s
      do return some (.combined k ((← parse? l).getD .never) ((← parse? r).getD .never))
termination_by s.length

theorem parse?_eq (s : List Char) : parse? s = .ok (Selector.parse? s) := by
  fun_induction Selector.parse? s with
  | case1 s hblank =>
    rw [parse?, if_pos hblank]
    rfl
  | case2 s hblank hnone =>
    have hsides := (sides_eq (Text.trim s)).trans (congrArg _ hnone)
    rw [parse?, if_neg hblank]
    split
    next h => cases hsides.symm.trans h
    next => rw [ofCompound_eq, ok_bind, pure_eq_ok]
    next h => cases hsides.symm.trans h
  | case3 s hblank l k r hsome _ _ ihl ihr =>
    have hsides := (sides_eq (Text.trim s)).trans (congrArg _ hsome)
    rw [parse?, if_neg hblank]
    split
    next h => cases hsides.symm.trans h
    next h => cases hsides.symm.trans h
    next h =>
      cases hsides.symm.trans h
      simp only [ihl, ihr, ok_bind, pure_eq_ok]

def parse (text : String) : Except Fault SelectorList := do
  let groups ← (← pieces ',' text.toList).mapM fun piece => parse? (Text.lower piece)
  return ⟨groups.filterMap id⟩

theorem parse_eq (text : String) : parse text = .ok (SelectorList.parse text) := by
  have hgroups : (splitTop ',' text.toList).mapM (fun piece => parse? (Text.lower piece)) =
      .ok ((splitTop ',' text.toList).map fun piece => Selector.parse? (Text.lower piece)) :=
    mapM_eq_ok fun piece _ => parse?_eq (Text.lower piece)
  rw [parse, pieces_eq (by decide), ok_bind, hgroups, ok_bind, List.filterMap_map]
  rfl

structure Lossless (s : List Char) : Prop where
  pieces_joined : [','].intercalate (splitTop ',' s) = s
  parts_joined : (splitCompound s).flatten = s
  part_ne_nil : ∀ part ∈ splitCompound s, part ≠ []
  later_part : ∀ part ∈ (splitCompound s).tail, ∃ c rest, part = c :: rest ∧ startsPart c = true

structure CutAtEdges (s : List Char) : Prop where
  range : ∀ r ∈ pieceRanges ',' s ++ partRanges s, r.1 ≤ r.2 ∧ IsEdge s r.1 ∧ IsEdge s r.2
  combinator : ∀ p ∈ combinatorPlace? s, IsEdge s p.1 ∧ IsEdge s (p.1 + 1)

/-- Whatever the text, each reader by slices answers as the reader by characters does. -/
structure Faultless (s : List Char) : Prop where
  pieces : pieces ',' s = .ok (splitTop ',' s)
  parts : parts s = .ok (splitCompound s)
  sides : sides s = .ok (lastCombinator s)
  unquote : unquote s = .ok (Predicate.unquote s)
  ofAttribute : ofAttribute s = .ok (Predicate.ofAttribute s)
  numbers : numbers s = .ok (NthPattern.parse? s)
  nth : nth s = .ok (Predicate.nth? s)
  ofPart : ∀ part ∈ splitCompound s, ofPart part = .ok (Predicate.ofPart part)
  ofCompound : ofCompound s = .ok (Selector.ofCompound s)
  parse? : parse? s = .ok (Selector.parse? s)

theorem lossless (s : List Char) : Lossless s where
  pieces_joined := intercalate_splitTop ',' s
  parts_joined := flatten_splitCompound s
  part_ne_nil _ := ne_nil_of_mem_splitCompound
  later_part _ := startsPart_of_mem_tail

theorem cutAtEdges (s : List Char) : CutAtEdges s where
  range r hr := by
    refine Text.exists_slice_iff.1 ?_
    rcases List.mem_append.1 hr with hr | hr
    · exact exists_of_mapM_eq_ok (pieces_eq (by decide) s) r hr
    · exact exists_of_mapM_eq_ok (parts_eq s) r hr
  combinator := by
    rintro ⟨i, k⟩ hp
    rw [combinatorPlace?_eq] at hp
    obtain ⟨⟨l, k, r⟩, hsides, heq⟩ := Option.map_eq_some_iff.1 hp
    cases heq
    obtain ⟨c, rfl, hc⟩ := exists_of_lastCombinator hsides
    exact ⟨Text.isEdge_iff.2 ⟨l, c :: r, rfl, rfl⟩,
      Text.isEdge_iff.2 ⟨l ++ [c], r, by simp, byteLength_concat_ascii hc l⟩⟩

theorem faultless (s : List Char) : Faultless s where
  pieces := pieces_eq (by decide) s
  parts := parts_eq s
  sides := sides_eq s
  unquote := unquote_eq s
  ofAttribute := ofAttribute_eq s
  numbers := numbers_eq s
  nth := nth_eq s
  ofPart _ hpart := ofPart_eq (ne_nil_of_mem_splitCompound hpart)
  ofCompound := ofCompound_eq s
  parse? := parse?_eq s

/-- A text is split without loss, at the edges of characters, and no cut of it and no look at a
single byte is a fault, so that reading it by slices gives its selectors. -/
theorem cuts_exact (text : String) :
    Lossless text.toList ∧ CutAtEdges text.toList ∧ Faultless text.toList ∧
      parse text = .ok (SelectorList.parse text) :=
  ⟨lossless text.toList, cutAtEdges text.toList, faultless text.toList, parse_eq text⟩

example : pieceRanges ',' "é,[é=\",é".toList = [(0, 2), (3, 11)] := by decide

end DocTree.Sliced
