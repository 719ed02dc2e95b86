import DocTree.Proofs.Selector.Parts

namespace DocTree

namespace Written

/-- The text stands for the two numbers: it is written with them, or without the sign before the
offset. -/
inductive Denotes : List Char → Int → Int → Prop
  | written (w : Argument) : Denotes w.print w.factor w.offset
  | unsigned (sign : Option Sign) (digits : Option Digits) (offset : Digits) :
    Denotes (signText sign ++ digitsText digits ++ 'n' :: offset)
      (Argument.multiple sign digits none).factor (Digits.value offset)

/-- The text has a second sign right after the plus of an integer or of an offset, and stands for
the numbers that are read with this sign. -/
inductive DoublySigned : List Char → Int → Int → Prop
  | integer (sign : Sign) (digits : Digits) :
    DoublySigned ('+' :: sign.char :: digits) 0 (sign.apply (Digits.value digits))
  | multiple (sign : Option Sign) (digits : Option Digits) (mark : Sign) (offset : Digits) :
    DoublySigned (signText sign ++ digitsText digits ++ 'n' :: '+' :: mark.char :: offset)
      (Argument.multiple sign digits none).factor (mark.apply (Digits.value offset))

variable {s : List Char} {n : Int}

theorem dropWhile_multiple (sign : Option Sign) (digits : Option Digits) (t : List Char) :
    (signText sign ++ digitsText digits ++ 'n' :: t).dropWhile (· != 'n') = 'n' :: t := by
  rw [List.dropWhile_append_of_pos
    (NthPattern.ne_n_of_isFigure fun _ => isFigure_of_mem sign digits)]
  simp

theorem dropWhile_integer (sign : Option Sign) (digits : Option Digits) :
    (signText sign ++ digitsText digits).dropWhile (· != 'n') = [] :=
  List.dropWhile_eq_nil_iff.2 (NthPattern.ne_n_of_isFigure fun _ => isFigure_of_mem sign digits)

theorem Denotes.isFigure_of_mem {factor offset : Int} (h : Denotes s factor offset) :
    ∀ c ∈ (s.dropWhile (· != 'n')).tail, isFigure c = true := by
  cases h with
  | written w =>
    cases w with
    | odd => exact List.forall_mem_nil _
    | even => exact List.forall_mem_nil _
    | integer sign digits =>
      have hdrop : (Argument.integer sign digits).print.dropWhile (· != 'n') = [] :=
        dropWhile_integer sign (some digits)
      rw [hdrop]
      exact List.forall_mem_nil _
    | multiple sign digits offset =>
      rw [Argument.print, dropWhile_multiple, List.tail_cons]
      cases offset with
      | none => exact List.forall_mem_nil _
      | some offset => exact fun c => Written.isFigure_of_mem (some offset.1) (some offset.2)
  | unsigned sign digits offset =>
    rw [dropWhile_multiple, List.tail_cons]
    exact fun c => Written.isFigure_of_mem none (some offset)

theorem isFigure_of_mem_plus (sign : Sign) (digits : Digits) :
    ∀ c ∈ '+' :: sign.char :: digits.val, isFigure c = true := fun _ hc =>
  (List.mem_cons.1 hc).elim (fun hplus => hplus ▸ rfl)
    (isFigure_of_mem (some sign) (some digits))

theorem DoublySigned.isFigure_of_mem {factor offset : Int} (h : DoublySigned s factor offset) :
    ∀ c ∈ (s.dropWhile (· != 'n')).tail, isFigure c = true := by
  cases h with
  | integer sign digits =>
    rw [List.dropWhile_eq_nil_iff.2 (NthPattern.ne_n_of_isFigure (isFigure_of_mem_plus sign digits))]
    exact List.forall_mem_nil _
  | multiple sign digits mark offset =>
    rw [dropWhile_multiple, List.tail_cons]
    exact isFigure_of_mem_plus mark offset

theorem Argument.factor_multiple (sign : Option Sign) (digits : Option Digits)
    (offset : Option (Sign × Digits)) :
    (multiple sign digits offset).factor = (multiple sign digits none).factor := by
  cases digits <;> rfl

theorem exists_of_signed? (h : Integer.signed? s = some n) :
    ∃ (sign : Option Sign) (digits : Digits), s = signText sign ++ digits ∧
      n = signed sign (Digits.value digits) := by
  have hvalue : ∀ (sign : Option Sign) (digits : Digits), s = signText sign ++ digits →
      n = signed sign (Digits.value digits) := by
    rintro sign digits rfl
    exact Option.some.inj (h.symm.trans (signed?_signText sign digits))
  suffices htext : ∃ (sign : Option Sign) (digits : Digits), s = signText sign ++ digits by
    obtain ⟨sign, digits, hs⟩ := htext
    exact ⟨sign, digits, hs, hvalue sign digits hs⟩
  unfold Integer.signed? at h
  split at h
  next t =>
    obtain ⟨k, hk, -⟩ := Option.map_eq_some_iff.1 h
    exact ⟨some .plus, ⟨t, Integer.forall_isDigit_of_natural? hk⟩, rfl⟩
  next t =>
    obtain ⟨k, hk, -⟩ := Option.map_eq_some_iff.1 h
    exact ⟨some .minus, ⟨t, Integer.forall_isDigit_of_natural? hk⟩, rfl⟩
  next =>
    obtain ⟨k, hk, -⟩ := Option.map_eq_some_iff.1 h
    exact ⟨none, ⟨s, Integer.forall_isDigit_of_natural? hk⟩, rfl⟩

theorem exists_of_read? (h : Integer.read? s = some n) :
    ∃ (sign : Option Sign) (digits : Digits), s = signText sign ++ digits ∧
      n = signed sign (Digits.value digits) :=
  exists_of_signed? (Option.filter_eq_some_iff.1 h).1

end Written

namespace NthPattern

open Written

variable {s : List Char} {n factor offset : Int}

theorem exists_of_offset? (h : offset? s = some n) :
    (∃ (sign : Option Sign) (digits : Digits), s = signText sign ++ digits ∧
        n = signed sign (Digits.value digits)) ∨
      ∃ (sign : Sign) (digits : Digits), s = '+' :: sign.char :: digits ∧
        n = sign.apply (Digits.value digits) ∧ 0 ≤ n := by
  unfold offset? at h
  split at h
  next t =>
    obtain ⟨hread, hnonneg⟩ := Option.filter_eq_some_iff.1 h
    obtain ⟨sign, digits, rfl, hn⟩ := exists_of_read? hread
    cases sign with
    | none => exact .inl ⟨some .plus, digits, rfl, hn⟩
    | some sign => exact .inr ⟨sign, digits, rfl, hn, of_decide_eq_true hnonneg⟩
  next => exact .inl (exists_of_read? h)

theorem exists_of_factor? (h : factor? s = some n) :
    ∃ sign digits, s = signText sign ++ digitsText digits ∧
      n = (Argument.multiple sign digits none).factor := by
  unfold factor? at h
  split at h
  next => exact ⟨none, none, rfl, (Option.some.inj h).symm⟩
  next => exact ⟨some .plus, none, rfl, (Option.some.inj h).symm⟩
  next => exact ⟨some .minus, none, rfl, (Option.some.inj h).symm⟩
  next =>
    obtain ⟨sign, digits, hs, hn⟩ := exists_of_read? h
    exact ⟨sign, some digits, hs, hn⟩

theorem denotes_integer (h : offset? s = some n) :
    Denotes s 0 n ∨ DoublySigned s 0 n ∧ 0 ≤ n := by
  rcases exists_of_offset? h with ⟨sign, digits, rfl, rfl⟩ | ⟨sign, digits, rfl, rfl, hn⟩
  · exact .inl (.written (.integer sign digits))
  · exact .inr ⟨.integer sign digits, hn⟩

theorem denotes_multiple {t : List Char} (hs : factor? s = some factor)
    (ht : (if t = [] then some 0 else offset? t) = some offset) :
    Denotes (s ++ 'n' :: t) factor offset ∨
      DoublySigned (s ++ 'n' :: t) factor offset ∧ 0 ≤ offset := by
  obtain ⟨sign, digits, rfl, rfl⟩ := exists_of_factor? hs
  split at ht
  next hnil =>
    subst hnil
    cases ht
    exact .inl (.written (.multiple sign digits none))
  next =>
    rcases exists_of_offset? ht with ⟨mark, rest, rfl, rfl⟩ | ⟨mark, rest, rfl, rfl, hoffset⟩
    · cases mark with
      | none => exact .inl (.unsigned sign digits rest)
      | some mark =>
        rw [← Argument.factor_multiple sign digits (some (mark, rest))]
        exact .inl (.written (.multiple sign digits (some (mark, rest))))
    · exact .inr ⟨.multiple sign digits mark rest, hoffset⟩

theorem denotes_of_compact? (h : compact? s = some (factor, offset)) :
    Denotes s factor offset ∨ DoublySigned s factor offset ∧ 0 ≤ offset := by
  unfold compact? at h
  split at h
  next hodd =>
    subst hodd
    cases h
    exact .inl (.written .odd)
  next =>
  split at h
  next heven =>
    subst heven
    cases h
    exact .inl (.written .even)
  next =>
  split at h
  next => cases h
  next =>
  split at h
  next =>
    obtain ⟨n, hn, hpair⟩ := Option.map_eq_some_iff.1 h
    cases hpair
    exact denotes_integer hn
  next c rest hdrop =>
    have hread : ((factor? (s.takeWhile (· != 'n'))).bind fun f =>
        (if rest = [] then some 0 else offset? rest).map (f, ·)) = some (factor, offset) := by
      rw [← h]
      by_cases hrest : rest = [] <;> simp [hrest, Option.map_eq_bind]
    obtain ⟨f, hf, hpairs⟩ := Option.bind_eq_some_iff.1 hread
    obtain ⟨o, ho, hpair⟩ := Option.map_eq_some_iff.1 hpairs
    cases hpair
    obtain rfl : c = 'n' := by
      have hhead := List.head?_dropWhile_not (· != 'n') s
      rw [hdrop] at hhead
      simpa using hhead
    have hsplit : s = s.takeWhile (· != 'n') ++ 'n' :: rest := by
      rw [← hdrop, List.takeWhile_append_dropWhile]
    rw [hsplit]
    exact denotes_multiple hf ho

theorem offset?_plus_sign (sign : Sign) (digits : Digits)
    (h : sign.apply (Digits.value digits) < 0) : offset? ('+' :: sign.char :: digits) = none := by
  have hread : Integer.read? (sign.char :: digits) =
      Option.guard (Integer.InRange ·) (sign.apply (Digits.value digits)) :=
    read?_signText (some sign) digits
  have hnonneg : decide (0 ≤ sign.apply (Digits.value digits)) = false :=
    decide_eq_false (Int.not_le.2 h)
  rw [offset?, hread, Option.filter_guard]
  simp only [Option.guard, hnonneg, Bool.and_false]
  rfl

theorem compact?_of_negative (hs : DoublySigned s factor offset) (hoffset : offset < 0) :
    compact? s = none := by
  cases hs with
  | integer sign digits =>
    rw [compact?_integer (isFigure_of_mem_plus sign digits) (List.cons_ne_nil _ _),
      offset?_plus_sign sign digits hoffset, Option.map_none]
  | multiple sign digits mark rest =>
    rw [compact?_multiple fun c => isFigure_of_mem sign digits, if_neg (List.cons_ne_nil _ _),
      offset?_plus_sign mark rest hoffset]
    cases factor? (signText sign ++ digitsText digits) <;> rfl

/-- An argument that is read stands for the numbers it is read with, second signs before a number
that is not negative aside; with any other argument the pseudo-class holds nowhere, and so it does
with a negative number right after a plus. -/
theorem parse?_denotes :
    (∀ (argument : List Char) (factor offset : Int), parse? argument = some (factor, offset) →
      Denotes (argument.filter (!Text.isBlank ·)) factor offset ∨
        DoublySigned (argument.filter (!Text.isBlank ·)) factor offset ∧ 0 ≤ offset) ∧
    (∀ (ofType reverse : Bool) (argument : List Char),
      (∀ factor offset, ¬ Denotes (argument.filter (!Text.isBlank ·)) factor offset) →
      (∀ factor offset,
        DoublySigned (argument.filter (!Text.isBlank ·)) factor offset → offset < 0) →
        parse? argument = none ∧
          Predicate.ofPart (nthName ofType reverse ++ '(' :: (argument ++ [')'])) =
            some .never) ∧
    ∀ (ofType reverse : Bool) (argument : List Char) (factor offset : Int),
      DoublySigned (argument.filter (!Text.isBlank ·)) factor offset → offset < 0 →
        parse? argument = none ∧
          Predicate.ofPart (nthName ofType reverse ++ '(' :: (argument ++ [')'])) =
            some .never := by
  have hread : ∀ {argument : List Char} {factor offset : Int},
      parse? argument = some (factor, offset) →
        Denotes (argument.filter (!Text.isBlank ·)) factor offset ∨
          DoublySigned (argument.filter (!Text.isBlank ·)) factor offset ∧ 0 ≤ offset :=
    denotes_of_compact?
  have hnever : ∀ (ofType reverse : Bool) {argument : List Char}, parse? argument = none →
      parse? argument = none ∧
        Predicate.ofPart (nthName ofType reverse ++ '(' :: (argument ++ [')'])) = some .never :=
    fun ofType reverse _ hnone => ⟨hnone, by rw [Predicate.ofPart_nth, hnone]⟩
  refine ⟨fun _ _ _ => hread, ?_, ?_⟩
  · intro ofType reverse argument hno hsigns
    apply hnever
    rw [Option.eq_none_iff_forall_ne_some]
    rintro ⟨factor, offset⟩ hparse
    rcases hread hparse with hdenotes | ⟨hsigned, hoffset⟩
    · exact hno factor offset hdenotes
    · exact Int.not_lt.2 hoffset (hsigns factor offset hsigned)
  · intro ofType reverse argument factor offset hsigned hoffset
    exact hnever ofType reverse (compact?_of_negative hsigned hoffset)

theorem parse?_denotes_unsigned :
    (parse? "2n 5".toList = some (2, 5) ∧
      (Denotes ("2n 5".toList.filter (!Text.isBlank ·)) 2 5 ∨
        DoublySigned ("2n 5".toList.filter (!Text.isBlank ·)) 2 5 ∧ 0 ≤ (5 : Int))) ∧
    ((∀ factor offset, ¬ Denotes ("n n".toList.filter (!Text.isBlank ·)) factor offset) ∧
      (∀ factor offset,
        DoublySigned ("n n".toList.filter (!Text.isBlank ·)) factor offset → offset < 0) ∧
      parse? "n n".toList = none ∧
        Predicate.ofPart ":nth-last-of-type(n n)".toList = some .never) ∧
    (DoublySigned ("2n+-1".toList.filter (!Text.isBlank ·)) 2 (-1) ∧
      parse? "2n+-1".toList = none ∧
        Predicate.ofPart ":nth-child(2n+-1)".toList = some .never) ∧
    DoublySigned ("+ -5".toList.filter (!Text.isBlank ·)) 0 (-5) ∧
      parse? "+ -5".toList = none ∧
        Predicate.ofPart ":nth-last-child(+ -5)".toList = some .never := by
  have hread : parse? "2n 5".toList = some (2, 5) := by decide +kernel
  have htwice : "n n".toList.filter (!Text.isBlank ·) = ['n', 'n'] := by decide +kernel
  have hno : ∀ factor offset, ¬ Denotes ("n n".toList.filter (!Text.isBlank ·)) factor offset := by
    intro factor offset h
    rw [htwice] at h
    exact absurd (h.isFigure_of_mem 'n' (by decide)) (by decide)
  have hsigns : ∀ factor offset,
      DoublySigned ("n n".toList.filter (!Text.isBlank ·)) factor offset → offset < 0 := by
    intro factor offset h
    rw [htwice] at h
    exact absurd (h.isFigure_of_mem 'n' (by decide)) (by decide)
  have hmultiple : DoublySigned ("2n+-1".toList.filter (!Text.isBlank ·)) 2 (-1) := by
    have htext : "2n+-1".toList.filter (!Text.isBlank ·) = ['2', 'n', '+', '-', '1'] := by
      decide +kernel
    rw [htext]
    exact .multiple none (some (.ofNat 2)) .minus (.ofNat 1)
  have hinteger : DoublySigned ("+ -5".toList.filter (!Text.isBlank ·)) 0 (-5) := by
    have htext : "+ -5".toList.filter (!Text.isBlank ·) = ['+', '-', '5'] := by decide +kernel
    rw [htext]
    exact .integer .minus (.ofNat 5)
  exact ⟨⟨hread, parse?_denotes.1 _ _ _ hread⟩,
    ⟨hno, hsigns, parse?_denotes.2.1 true true _ hno hsigns⟩,
    ⟨hmultiple, parse?_denotes.2.2 false false _ _ _ hmultiple (by decide)⟩,
    hinteger, parse?_denotes.2.2 false true _ _ _ hinteger (by decide)⟩

theorem parse?_unsigned_offset : ¬ ∀ (s : List Char) (factor offset : Int),
    parse? s = some (factor, offset) →
      ∃ w : Argument, s.filter (!Text.isBlank ·) = w.print := by
  intro hall
  obtain ⟨w, hw⟩ := hall "2n5".toList 2 5 (by decide +kernel)
  have htext : w.print = ['2', 'n', '5'] := hw.symm.trans (by decide +kernel)
  cases w with
  | odd => exact absurd htext (by decide)
  | even => exact absurd htext (by decide)
  | integer sign digits =>
    have hn : 'n' ∈ (Argument.integer sign digits).print := by
      rw [htext]
      decide
    exact absurd (isFigure_of_mem sign (some digits) hn) (by decide)
  | multiple sign digits offset =>
    have hdrop := dropWhile_multiple sign digits (offsetText offset)
    rw [← Argument.print, htext] at hdrop
    have hoffset : offsetText offset = ['5'] := (List.cons.inj hdrop).2.symm
    cases offset with
    | none => exact absurd hoffset (by decide)
    | some offset =>
      obtain ⟨sign, digits⟩ := offset
      have hsign : sign.char = '5' := (List.cons.inj hoffset).1
      cases sign <;> exact absurd hsign (by decide)

end NthPattern

end DocTree
