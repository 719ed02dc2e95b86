import DocTree.Proofs.Selector.Parts

namespace DocTree

namespace Nesting

variable {p : Char → Prop} {n : Nesting} {s left : List Char} {c q : Char}

def isDelimiter (c : Char) : Bool :=
  isQuote c || c == '[' || c == ']' || c == '(' || c == ')'

theorem feed_of_not_isDelimiter (hn : n.quote = none) (hc : isDelimiter c = false) (d : Direction)
    (left : List Char) : n.feed d left c = n := by
  simp only [isDelimiter, Bool.or_eq_false_iff, beq_eq_false_iff_ne] at hc
  cases d <;>
    simp [feed, hn, feedPlain, hc, Direction.openBracket, Direction.closeBracket,
      Direction.openParen, Direction.closeParen]

theorem covers_of_not_isDelimiter (hn : n.quote = none) (hs : ∀ c ∈ s, isDelimiter c = false)
    (hp : n.isTop = true → ∀ c ∈ s, p c) (left : List Char) : Covers p n left s n := by
  induction s generalizing left with
  | nil => exact .nil
  | cons c s ih =>
    have hc := hs c List.mem_cons_self
    refine .cons (fun htop => hp htop c List.mem_cons_self) (fun _ => ?_) ?_
    · constructor <;> rintro rfl <;> exact absurd hc (by decide)
    · rw [feed_of_not_isDelimiter hn hc]
      exact ih (fun d hd => hs d (List.mem_cons_of_mem c hd))
        (fun htop d hd => hp htop d (List.mem_cons_of_mem c hd)) _

def inBrackets : Nesting := ⟨1, 0, none⟩

def inParens : Nesting := ⟨0, 1, none⟩

theorem covers_bracket (h : Covers p inBrackets left s inBrackets) :
    Covers p inBrackets left (s ++ [']']) top :=
  h.append (.cons_below rfl (fun _ => ⟨fun _ => Nat.one_pos, fun h => absurd h (by decide)⟩) .nil)

theorem covers_paren (h : Covers p inParens left s inParens) :
    Covers p inParens left (s ++ [')']) top :=
  h.append (.cons_below rfl (fun _ => ⟨fun h => absurd h (by decide), fun _ => Nat.one_pos⟩) .nil)

theorem feed_quoted (h : c = q → escaped left = true) (b r : Nat) (d : Direction) :
    feed ⟨b, r, some q⟩ d left c = ⟨b, r, some q⟩ := by
  simp_all [feed]

theorem Covers.cons_quoted (hc : c = q → escaped left = true)
    (h : Covers p ⟨1, 0, some q⟩ (c :: left) s n) : Covers p ⟨1, 0, some q⟩ left (c :: s) n :=
  .cons_below rfl (admits_quoted _ _ _ _) (by rwa [feed_quoted hc])

theorem covers_escape (hq : q ≠ '\\') (s : List Char) (hleft : escaped left = false) :
    Covers p ⟨1, 0, some q⟩ left (Written.escape q s) ⟨1, 0, some q⟩ := by
  induction s generalizing left with
  | nil => exact .nil
  | cons c s ih =>
    rw [Written.escape]
    split
    next =>
      refine .cons_quoted (fun h => absurd h.symm hq) (.cons_quoted (fun _ => ?_) ?_)
      · simp [hleft]
      · exact ih (Written.escaped_pair hleft c)
    next hc =>
      rw [not_or] at hc
      exact .cons_quoted (fun h => absurd h hc.2) (ih (escaped_cons_of_ne hc.1 left))

theorem covers_quoted (quote : Written.Quote) (s : List Char) (hleft : escaped left = false) :
    Covers p inBrackets left (quote.char :: (Written.escape quote.char s ++ [quote.char]))
      inBrackets := by
  have hquote := quote.isQuote_char
  have hback := quote.char_ne_backslash
  have hopen : escaped (quote.char :: left) = false := escaped_cons_of_ne hback left
  have henter : inBrackets.feed .forward left quote.char = ⟨1, 0, some quote.char⟩ := by
    simp [feed, feedPlain, inBrackets, hquote, hleft]
  have hleave : ∀ left, escaped left = false →
      feed ⟨1, 0, some quote.char⟩ .forward left quote.char = inBrackets := by
    intro left h
    simp [feed, inBrackets, h]
  have hclosers : quote.char ≠ ']' ∧ quote.char ≠ ')' := by
    cases quote <;> decide
  refine .cons_below rfl (admits_of_ne hclosers.1 hclosers.2) ?_
  rw [henter]
  refine (covers_escape hback s hopen).append (.cons_below rfl (admits_quoted _ _ _ _) ?_)
  rw [hleave _ (Written.escaped_escape _ _ hopen)]
  exact .nil

end Nesting

open Nesting

namespace Written

def IsOuter (c : Char) : Prop := isJoining c = false ∧ c ≠ ','

def IsInner (c : Char) : Prop := startsPart c = false ∧ IsOuter c

variable {n : Nesting} {s t : List Char} {c : Char}

theorem isOuter_of_startsPart (h : startsPart c = true) : IsOuter c := by
  simp only [startsPart, Bool.or_eq_true, beq_iff_eq] at h
  rcases h with ((rfl | rfl) | rfl) | rfl <;> exact ⟨rfl, by decide⟩

theorem isJoining_of_isNameChar : ∀ c, Text.isNameChar c = true → isJoining c = false :=
  Text.forall_isNameChar (by decide)

theorem isInner_of_isNameChar (h : Text.isNameChar c = true) : IsInner c := by
  refine ⟨not_startsPart h, isJoining_of_isNameChar c h, ?_⟩
  rintro rfl
  exact absurd h (by decide)

theorem isDelimiter_of_isNameChar : ∀ c, Text.isNameChar c = true → isDelimiter c = false :=
  Text.forall_isNameChar (by decide)

theorem covers_name (hn : n.quote = none) (hs : ∀ c ∈ s, Text.isNameChar c = true)
    (left : List Char) : Covers IsInner n left s n :=
  covers_of_not_isDelimiter hn (fun c hc => isDelimiter_of_isNameChar c (hs c hc))
    (fun _ c hc => isInner_of_isNameChar (hs c hc)) left

theorem covers_sign (operator : AttributeOperator) (left : List Char) :
    Covers IsInner inBrackets left (sign operator) inBrackets :=
  covers_of_not_isDelimiter rfl (by cases operator <;> simp [sign, isDelimiter, isQuote]) nofun left

theorem escaped_sign (operator : AttributeOperator) (left : List Char) :
    escaped ((sign operator).reverse ++ left) = false := by
  cases operator <;> exact escaped_cons_of_ne (by decide) _

theorem covers_nthArgument (factor offset : Int) (left : List Char) :
    Covers IsInner inParens left (nthArgument factor offset) inParens := by
  refine covers_of_not_isDelimiter rfl (fun c hc => ?_) nofun left
  exact NthPattern.forall_mem_nthArgument
    (fun d hd => isDelimiter_of_isNameChar d (Text.isNameChar_of_isDigit hd))
    (by decide) (by decide) (by decide) hc

theorem Pseudo.exists_name (p : Pseudo) : ∃ s, p.print = ':' :: s ∧ Text.IsName s := by
  cases p <;> exact ⟨_, rfl, by decide⟩

theorem exists_nthName (ofType reverse : Bool) :
    ∃ s, nthName ofType reverse = ':' :: s ∧ Text.IsName s := by
  cases ofType <;> cases reverse <;> exact ⟨_, rfl, by decide⟩

theorem Part.exists_covers (x : Part) : ∃ c s, x.print = c :: s ∧ startsPart c = true ∧
    ∀ left, Covers IsInner (top.feed .forward left c) (c :: left) s top := by
  cases x with
  | id name => exact ⟨'#', name, rfl, rfl, fun _ => covers_name rfl name.2.2 _⟩
  | className name => exact ⟨'.', name, rfl, rfl, fun _ => covers_name rfl name.2.2 _⟩
  | hasAttribute name =>
    exact ⟨'[', name ++ [']'], rfl, rfl, fun _ => covers_bracket (covers_name rfl name.2.2 _)⟩
  | «attribute» name operator quote value =>
    refine ⟨'[', name.val ++ (sign operator ++
      (quote.char :: (escape quote.char value ++ [quote.char]))) ++ [']'], by simp [Part.print],
      rfl, fun left => covers_bracket ?_⟩
    exact (covers_name rfl name.2.2 _).append ((covers_sign operator _).append
      (covers_quoted quote value (escaped_sign operator _)))
  | pseudo p =>
    obtain ⟨s, hs, hname⟩ := p.exists_name
    exact ⟨':', s, hs, rfl, fun _ => covers_name rfl hname.2 _⟩
  | nth ofType reverse factor offset =>
    obtain ⟨s, hs, hname⟩ := exists_nthName ofType reverse
    refine ⟨':', s ++ '(' :: (nthArgument factor offset ++ [')']), by simp [Part.print, hs], rfl,
      fun left => (covers_name rfl hname.2 _).append ?_⟩
    exact .cons (fun _ => ⟨rfl, rfl, by decide⟩) (admits_of_ne (by decide) (by decide))
      (covers_paren (covers_nthArgument factor offset _))

theorem Part.covers (x : Part) (left : List Char) : Covers IsOuter top left x.print top := by
  obtain ⟨c, s, hx, hc, hs⟩ := x.exists_covers
  have hclosers : c ≠ ']' ∧ c ≠ ')' := by
    constructor <;> rintro rfl <;> exact absurd hc (by decide)
  rw [hx]
  exact .cons (fun _ => isOuter_of_startsPart hc) (admits_of_ne hclosers.1 hclosers.2)
    ((hs left).mono fun _ h => h.2)

theorem Tag.print_ne_nil (tag : Tag) : tag.print ≠ [] := by
  cases tag with
  | any => exact List.cons_ne_nil _ _
  | name n => exact n.2.1

theorem Tag.covers (tag : Tag) (left : List Char) : Covers IsInner top left tag.print top := by
  cases tag with
  | any => exact .cons (fun _ => ⟨rfl, rfl, by decide⟩) (admits_of_ne (by decide) (by decide)) .nil
  | name n => exact covers_name rfl n.2.2 left

theorem covers_parts (parts : List Part) (left : List Char) :
    Covers IsOuter top left (parts.flatMap (·.print)) top := by
  induction parts generalizing left with
  | nil => exact .nil
  | cons x parts ih => exact (x.covers left).append (ih _)

theorem Compound.covers (c : Compound) (left : List Char) :
    Covers IsOuter top left c.print top := by
  cases c with
  | tagged tag parts => exact ((tag.covers left).mono fun _ h => h.2).append (covers_parts parts _)
  | untagged first rest => exact (first.covers left).append (covers_parts rest _)

theorem partsFrom_inner (h : Covers IsInner n left s top) (parts : List Part)
    (hparts : ∀ left, top.partsFrom left (parts.flatMap (·.print)) = ([], parts.map (·.print))) :
    n.partsFrom left (s ++ parts.flatMap (·.print)) = (s, parts.map (·.print)) := by
  rw [(h.mono fun _ hc => hc.1).partsFrom_eq, hparts, List.append_nil]

theorem partsFrom_parts (parts : List Part) (left : List Char) :
    top.partsFrom left (parts.flatMap (·.print)) = ([], parts.map (·.print)) := by
  induction parts generalizing left with
  | nil => rfl
  | cons x parts ih =>
    obtain ⟨c, s, hx, hc, hs⟩ := x.exists_covers
    rw [List.flatMap_cons, hx, List.cons_append, partsFrom, partsFrom_inner (hs left) parts ih]
    simp [hc, hx]
    rfl

def Compound.fragments : Compound → List (List Char)
  | .tagged tag parts => tag.print :: parts.map (·.print)
  | .untagged first rest => (first :: rest).map (·.print)

theorem Compound.splitCompound_print (c : Compound) : splitCompound c.print = c.fragments := by
  cases c with
  | tagged tag parts =>
    obtain ⟨c, s, htag⟩ := List.exists_cons_of_ne_nil tag.print_ne_nil
    have hcovers := tag.covers []
    rw [htag] at hcovers
    cases hcovers with
    | cons _ _ hs =>
      simp only [print, fragments, htag, List.cons_append, splitCompound,
        partsFrom_inner hs parts (partsFrom_parts parts)]
  | untagged first rest =>
    obtain ⟨c, s, hx, hc, hs⟩ := first.exists_covers
    simp only [print, fragments, hx, List.cons_append, splitCompound,
      partsFrom_inner (hs []) rest (partsFrom_parts rest), List.map_cons]

theorem Tag.ofPart_print (tag : Tag) : Predicate.ofPart tag.print = some tag.predicate := by
  cases tag with
  | any => rfl
  | name n => exact Predicate.ofPart_name n.2.1 n.2.2

theorem Compound.ofCompound_print (c : Compound) : Selector.ofCompound c.print = c.selector := by
  have hparts : ∀ parts : List Part,
      (parts.map (·.print)).filterMap Predicate.ofPart = parts.filterMap (·.predicate?) := by
    intro parts
    simp [List.filterMap_map, Predicate.ofPart_print]
  have hpredicates : c.fragments.filterMap Predicate.ofPart = c.predicates := by
    cases c with
    | tagged tag parts =>
      rw [fragments, List.filterMap_cons_some tag.ofPart_print, hparts, predicates]
    | untagged first rest => exact hparts (first :: rest)
  rw [Selector.ofCompound, splitCompound_print, hpredicates]
  unfold selector
  rcases c.predicates with _ | ⟨p, _ | ⟨q, ps⟩⟩ <;> rfl

end Written

end DocTree
