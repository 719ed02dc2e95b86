import DocTree.Proofs.Selector.Forward
import DocTree.Proofs.Selector.Reading
import DocTree.Proofs.Selector.Written

namespace DocTree

namespace NthPattern

variable {factor offset : Int}

theorem mem_nthArgument {c : Char} (h : c ∈ Written.nthArgument factor offset) :
    c.isDigit = true ∨ c ∈ ['-', '+', 'n'] := by
  rcases List.mem_append.1 h with h | h
  · rcases Integer.isDigit_or_eq_of_mem_print h with h | rfl
    · exact .inl h
    · exact .inr (by simp)
  · rcases List.mem_cons.1 h with rfl | h
    · exact .inr (by simp)
    rcases List.mem_cons.1 h with rfl | h
    · exact .inr (by split <;> simp)
    · exact .inl (Integer.isDigit_of_mem_digits h)

theorem forall_mem_nthArgument {P : Char → Prop} (hdigit : ∀ c, c.isDigit = true → P c)
    (hminus : P '-') (hplus : P '+') (hn : P 'n') {c : Char}
    (h : c ∈ Written.nthArgument factor offset) : P c := by
  rcases mem_nthArgument h with h | h
  · exact hdigit c h
  · simp only [List.mem_cons, List.not_mem_nil, or_false] at h
    rcases h with rfl | rfl | rfl
    · exact hminus
    · exact hplus
    · exact hn

theorem parse?_nthArgument (hf : Integer.InRange factor) (ho : Integer.InRange offset) :
    parse? (Written.nthArgument factor offset) = some (factor, offset) := by
  have hread := parse?_print (.ofNumbers factor (.ofInt offset) offset.natAbs)
  have hprint : Written.nthArgument factor offset =
      (Written.Argument.ofNumbers factor (.ofInt offset) offset.natAbs).print := by
    rw [Written.Argument.print_ofNumbers, Written.nthArgument, Written.Sign.ofInt]
    split <;> rfl
  rw [hprint, hread]
  simp [Written.Sign.apply_natAbs, hf, ho]

end NthPattern

namespace Written

variable {quote : Char} {left : List Char}

theorem escaped_pair (h : Nesting.escaped left = false) (c : Char) :
    Nesting.escaped (c :: '\\' :: left) = false := by
  by_cases hc : c = '\\'
  · simp [hc, h]
  · exact Nesting.escaped_cons_of_ne hc _

theorem escaped_escape (quote : Char) (s : List Char) (h : Nesting.escaped left = false) :
    Nesting.escaped ((escape quote s).reverse ++ left) = false := by
  induction s generalizing left with
  | nil => exact h
  | cons c s ih =>
    rw [escape]
    split
    next => simpa using ih (escaped_pair h c)
    next hc =>
      simpa using ih (Nesting.escaped_cons_of_ne (fun hback => hc (.inl hback)) left)

theorem Quote.isQuote_char (q : Quote) : Nesting.isQuote q.char = true := by
  cases q <;> rfl

theorem Quote.isBlank_char (q : Quote) : Text.isBlank q.char = false := by
  cases q <;> decide

theorem Quote.char_ne_backslash (q : Quote) : q.char ≠ '\\' := by
  cases q <;> decide

end Written

namespace Predicate

variable {s t : List Char}

theorem unescape_escape (quote : Char) (s : List Char) :
    unescape (Written.escape quote s) = s := by
  induction s with
  | nil => rfl
  | cons c s ih =>
    rw [Written.escape]
    split
    next => rw [unescape, ih]
    next h =>
      rw [unescape, ih]
      · rintro rfl
        simp at h
      · rintro d t rfl
        simp at h

theorem unquote_escape (quote : Written.Quote) (s : List Char) :
    unquote (quote.char :: (Written.escape quote.char s ++ [quote.char])) = s := by
  have hopen : Nesting.escaped [quote.char] = false :=
    Nesting.escaped_cons_of_ne quote.char_ne_backslash []
  have hclose : Nesting.escaped
      (quote.char :: (Written.escape quote.char s ++ [quote.char])).dropLast.reverse = false := by
    rw [← List.cons_append, List.dropLast_concat, List.reverse_cons]
    exact Written.escaped_escape quote.char s hopen
  rw [unquote, quoted?, hclose, quote.isQuote_char]
  simp [unescape_escape]

theorem tight_quoted (quote : Written.Quote) (s : List Char) :
    Text.Tight (quote.char :: (s ++ [quote.char])) where
  ne_nil := List.cons_ne_nil _ _
  first := by
    rintro _ ⟨⟩
    exact quote.isBlank_char
  last := by
    rw [← List.cons_append, List.getLast?_concat]
    rintro _ ⟨⟩
    exact quote.isBlank_char

theorem tight_name (hs : Text.IsName s) : Text.Tight s :=
  Text.tight_of_forall hs.1 fun c hc => Text.isBlank_of_isNameChar c (hs.2 c hc)

theorem ne_equals_sign (hs : Text.IsName s) : ∀ c ∈ s, (c != '=') = true := by
  intro c hc
  rw [bne_iff_ne]
  rintro rfl
  exact absurd (hs.2 '=' hc) (by decide)

theorem ofAttribute_name (hs : Text.IsName s) : ofAttribute s = .hasAttribute (.ofList s) := by
  have hdrop : s.dropWhile (· != '=') = [] := List.dropWhile_eq_nil_iff.2 (ne_equals_sign hs)
  simp [ofAttribute, hdrop, (tight_name hs).trim_eq, hs.1]

theorem exists_sign (hs : Text.IsName s) (operator : AttributeOperator) :
    ∃ o, Written.sign operator = o ++ ['='] ∧ (∀ c ∈ o, (c != '=') = true) ∧
      operatorOf (s ++ o).getLast? = operator ∧
      (if operator = .equals then s ++ o else (s ++ o).dropLast) = s := by
  cases operator with
  | equals =>
    refine ⟨[], rfl, nofun, ?_, by simp⟩
    obtain ⟨c, hc⟩ := Option.ne_none_iff_exists'.1 (mt List.getLast?_eq_none_iff.1 hs.1)
    have hname := hs.2 c (List.mem_of_getLast? hc)
    rw [List.append_nil, hc]
    unfold operatorOf
    split <;> first | rfl | (cases ‹some c = some _›; exact absurd hname (by decide))
  | startsWith => exact ⟨['^'], rfl, by simp, by simp [operatorOf], by simp⟩
  | endsWith => exact ⟨['$'], rfl, by simp, by simp [operatorOf], by simp⟩
  | contains => exact ⟨['*'], rfl, by simp, by simp [operatorOf], by simp⟩
  | containsWord => exact ⟨['~'], rfl, by simp, by simp [operatorOf], by simp⟩
  | containsPrefix => exact ⟨['|'], rfl, by simp, by simp [operatorOf], by simp⟩

theorem ofAttribute_value (hs : Text.IsName s) (operator : AttributeOperator)
    (quote : Written.Quote) (value : List Char) :
    ofAttribute (s ++ Written.sign operator ++
      quote.char :: (Written.escape quote.char value ++ [quote.char])) =
      .attribute (.ofList s) operator (.ofList value) := by
  obtain ⟨o, hsign, ho, hoperator, hname⟩ := exists_sign hs operator
  have hbefore : ∀ c ∈ s ++ o, (c != '=') = true := fun c hc =>
    (List.mem_append.1 hc).elim (ne_equals_sign hs c) (ho c)
  have hsplit : s ++ Written.sign operator ++
      quote.char :: (Written.escape quote.char value ++ [quote.char]) =
      (s ++ o) ++ '=' :: quote.char :: (Written.escape quote.char value ++ [quote.char]) := by
    simp [hsign]
  have htake : ∀ t, ((s ++ o) ++ '=' :: t).takeWhile (· != '=') = s ++ o := fun t => by
    rw [List.takeWhile_append_of_pos hbefore]
    simp
  have hdrop : ∀ t, ((s ++ o) ++ '=' :: t).dropWhile (· != '=') = '=' :: t := fun t => by
    rw [List.dropWhile_append_of_pos hbefore]
    simp
  rw [hsplit, ofAttribute, hdrop]
  simp only [htake, hoperator, hname, (tight_name hs).trim_eq, if_neg hs.1,
    (tight_quoted quote _).trim_eq, unquote_escape]

theorem ofPart_nth (ofType reverse : Bool) (argument : List Char) :
    ofPart (Written.nthName ofType reverse ++ '(' :: (argument ++ [')'])) =
      match NthPattern.parse? argument with
      | none => some .never
      | some (factor, offset) =>
        if factor = 1 ∧ offset = 0 then none
        else if ofType then some (.nthOfType ⟨factor, offset, reverse⟩)
        else some (.nthChild ⟨factor, offset, reverse⟩) := by
  have hcolon : ∃ s, Written.nthName ofType reverse = ':' :: s := by
    cases ofType <;> cases reverse <;> exact ⟨_, rfl⟩
  have hfixed : fixed.lookup (.ofList (Written.nthName ofType reverse ++
      '(' :: (argument ++ [')']))) = none := by
    rw [List.lookup_eq_none_iff]
    intro p hp
    have hplain : ∀ p ∈ fixed, '(' ∉ p.1.toList := by decide
    exact bne_iff_ne.2 (ofList_ne (c := '(') (by simp) (hplain p hp))
  have hname : ∀ c ∈ Written.nthName ofType reverse, (c != '(') = true :=
    List.all_eq_true.1 (by cases ofType <;> cases reverse <;> rfl)
  have hcounted : counted.lookup (.ofList (Written.nthName ofType reverse)) =
      some (ofType, reverse) := by
    cases ofType <;> cases reverse <;> decide
  have hargument : argument? (Written.nthName ofType reverse ++ '(' :: (argument ++ [')'])) =
      some argument := by
    rw [argument?, List.dropWhile_append_of_pos hname]
    simp
  have hnth : nth? (Written.nthName ofType reverse ++ '(' :: (argument ++ [')'])) =
      (NthPattern.parse? argument).map fun numbers =>
        (ofType, ⟨numbers.1, numbers.2, reverse⟩) := by
    rw [nth?, hargument, List.takeWhile_append_of_pos hname]
    simp [hcounted, Option.map_eq_bind]
  have hpart : ofPart (Written.nthName ofType reverse ++ '(' :: (argument ++ [')'])) =
      ofPseudoClass (Written.nthName ofType reverse ++ '(' :: (argument ++ [')'])) := by
    obtain ⟨s, hs⟩ := hcolon
    rw [hs, List.cons_append, ofPart]
  rw [hpart, ofPseudoClass, hfixed, hnth]
  cases NthPattern.parse? argument with
  | none => rfl
  | some numbers => simp [NthPattern.matchesAll, apply_ite some]

theorem ofPart_print (x : Written.Part) : ofPart x.print = x.predicate? := by
  cases x with
  | id name => simp [Written.Part.print, ofPart, name.2.1, Written.Part.predicate?]
  | className name => simp [Written.Part.print, ofPart, name.2.1, Written.Part.predicate?]
  | hasAttribute name =>
    simp [Written.Part.print, ofPart, ofAttribute_name name.2, Written.Part.predicate?]
  | «attribute» name operator quote value =>
    have hprint : (Written.Part.attribute name operator quote value).print =
        '[' :: (name.val ++ Written.sign operator ++
          quote.char :: (Written.escape quote.char value ++ [quote.char]) ++ [']']) := by
      simp [Written.Part.print]
    rw [hprint, ofPart, List.getLast?_concat, List.dropLast_concat, if_pos rfl,
      ofAttribute_value name.2, Written.Part.predicate?]
  | pseudo p => cases p <;> rfl
  | nth ofType reverse factor offset =>
    rw [Written.Part.print, ofPart_nth, NthPattern.parse?_nthArgument factor.2 offset.2,
      Written.Part.predicate?]

end Predicate

end DocTree
