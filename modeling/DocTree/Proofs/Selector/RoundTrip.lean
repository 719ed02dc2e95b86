import DocTree.Proofs.Selector.Printed
import DocTree.Proofs.Text.Letter

namespace DocTree

open Nesting

namespace Written

def IsEdge (c : Char) : Prop := Text.isBlank c = false ∧ isJoining c = false

structure Edged (s : List Char) : Prop where
  ne_nil : s ≠ []
  first : ∀ c, s.head? = some c → IsEdge c
  last : ∀ c, s.getLast? = some c → IsEdge c

variable {s t u : List Char} {c d : Char}

theorem Edged.tight (h : Edged s) : Text.Tight s :=
  ⟨h.ne_nil, fun c hc => (h.first c hc).1, fun c hc => (h.last c hc).1⟩

theorem Edged.append (hs : Edged s) (ht : Edged t) (u : List Char) : Edged (s ++ u ++ t) where
  ne_nil := by simp [hs.ne_nil]
  first := by
    obtain ⟨d, s, rfl⟩ := List.exists_cons_of_ne_nil hs.ne_nil
    exact hs.first
  last := by
    rw [List.getLast?_append_of_ne_nil _ ht.ne_nil]
    exact ht.last

theorem isEdge_of_isNameChar (h : Text.isNameChar c = true) : IsEdge c :=
  ⟨Text.isBlank_of_isNameChar c h, isJoining_of_isNameChar c h⟩

theorem isEdge_of_startsPart (h : startsPart c = true) : IsEdge c := by
  simp only [startsPart, Bool.or_eq_true, beq_iff_eq] at h
  rcases h with ((rfl | rfl) | rfl) | rfl <;> exact ⟨by decide, rfl⟩

theorem edged_name (hs : Text.IsName s) : Edged s where
  ne_nil := hs.1
  first c hc := isEdge_of_isNameChar (hs.2 c (List.mem_of_mem_head? hc))
  last c hc := isEdge_of_isNameChar (hs.2 c (List.mem_of_getLast? hc))

theorem edged_singleton (h : IsEdge c) : Edged [c] where
  ne_nil := List.cons_ne_nil _ _
  first := by
    rintro _ ⟨⟩
    exact h
  last := by
    rintro _ ⟨⟩
    exact h

theorem edged_prefixed (hc : startsPart c = true) (hs : Text.IsName s) : Edged (c :: s) :=
  (edged_singleton (isEdge_of_startsPart hc)).append (edged_name hs) []

theorem edged_enclosed (hc : startsPart c = true) (s : List Char) (hd : IsEdge d) :
    Edged (c :: (s ++ [d])) :=
  (edged_singleton (isEdge_of_startsPart hc)).append (edged_singleton hd) s

theorem Part.edged (x : Part) : Edged x.print := by
  have hbracket : IsEdge ']' := ⟨by decide, rfl⟩
  have hparen : IsEdge ')' := ⟨by decide, rfl⟩
  cases x with
  | id name => exact edged_prefixed rfl name.2
  | className name => exact edged_prefixed rfl name.2
  | hasAttribute name => exact edged_enclosed rfl name.val hbracket
  | «attribute» name operator quote value =>
    have h := edged_enclosed (c := '[') rfl (name.val ++ sign operator ++
      quote.char :: escape quote.char value ++ [quote.char]) hbracket
    simpa [Part.print] using h
  | pseudo p =>
    obtain ⟨s, hs, hname⟩ := p.exists_name
    rw [Part.print, hs]
    exact edged_prefixed rfl hname
  | nth ofType reverse factor offset =>
    obtain ⟨s, hs, -⟩ := exists_nthName ofType reverse
    have h := edged_enclosed (c := ':') rfl (s ++ '(' :: nthArgument factor offset) hparen
    simpa [Part.print, hs] using h

theorem Tag.edged (tag : Tag) : Edged tag.print := by
  cases tag with
  | any => exact edged_singleton ⟨by decide, rfl⟩
  | name n => exact edged_name n.2

theorem Edged.append_parts (hs : Edged s) (parts : List Part) :
    Edged (s ++ parts.flatMap (·.print)) := by
  induction parts generalizing s with
  | nil => simpa using hs
  | cons x parts ih =>
    have hx := hs.append x.edged []
    rw [List.append_nil] at hx
    simpa using ih hx

theorem Compound.edged (c : Compound) : Edged c.print := by
  cases c with
  | tagged tag parts => exact tag.edged.append_parts parts
  | untagged first rest => exact first.edged.append_parts rest

theorem Chain.edged (c : Chain) : Edged c.print := by
  induction c with
  | compound c => exact c.edged
  | join left joint right ih => exact ih.append right.edged joint.print

theorem isAsciiBlank_of_mem_blanks {s : List Blank} (h : c ∈ blanks s) :
    Text.isAsciiBlank c = true := by
  obtain ⟨b, -, rfl⟩ := List.mem_map.1 h
  exact b.2

theorem isBlank_of_mem_blanks {s : List Blank} : ∀ c ∈ blanks s, Text.isBlank c = true :=
  fun _ h => Text.isBlank_of_isAsciiBlank (isAsciiBlank_of_mem_blanks h)

theorem isDelimiter_of_isJoining (h : isJoining c = true) : isDelimiter c = false ∧ c ≠ ',' := by
  simp only [isJoining, Text.isAsciiBlank, Bool.or_eq_true, beq_iff_eq] at h
  rcases h with (rfl | rfl) | (((rfl | rfl) | rfl) | rfl) | rfl <;> exact ⟨rfl, by decide⟩

theorem isJoining_of_isAsciiBlank (h : Text.isAsciiBlank c = true) : isJoining c = true := by
  simp [isJoining, h]

theorem combinatorAt_blank (hc : Text.isAsciiBlank c = true)
    (hs : ∀ e ∈ s, Text.isAsciiBlank e = true) (hd : Text.isAsciiBlank d = false)
    (left : List Char) : combinatorAt (s ++ d :: left) c =
      if d = '>' ∨ d = '~' then none else some .descendant := by
  have hne : c ≠ '>' ∧ c ≠ '~' := by
    constructor <;> rintro rfl <;> exact absurd hc (by decide)
  have hdrop : (s ++ d :: left).dropWhile Text.isAsciiBlank = d :: left := by
    rw [List.dropWhile_append_of_pos hs, List.dropWhile_cons, if_neg (by simp [hd])]
  rw [combinatorAt_eq, hdrop, if_neg hne.1, if_neg hne.2]
  by_cases hd' : d = '>' ∨ d = '~'
  · rw [if_pos hd', if_neg (by simpa [hc, imp_iff_not_or] using hd')]
  · rw [if_neg hd', if_pos (by simpa [hc] using hd')]

theorem passes_blanks (hd : d = '>' ∨ d = '~') (hs : ∀ c ∈ s, Text.isAsciiBlank c = true)
    (left : List Char) : Passes (d :: left) top s top := by
  have hblank : Text.isAsciiBlank d = false := by rcases hd with rfl | rfl <;> rfl
  induction s with
  | nil => exact .nil
  | cons c s ih =>
    have hc := hs c List.mem_cons_self
    have hrest := fun e he => hs e (List.mem_cons_of_mem c he)
    refine .cons (fun _ => ?_) ?_
    · rw [combinatorAt_blank hc hrest hblank, if_pos hd]
    · rw [feed_of_not_isDelimiter rfl
        (isDelimiter_of_isJoining (isJoining_of_isAsciiBlank hc)).1]
      exact ih hrest

theorem lastCombinator_of_passes {l r : List Char} {k : Combinator}
    (h : Passes (c :: l.reverse) top r.reverse top) (hc : combinatorAt l.reverse c = some k) :
    lastCombinator (l ++ c :: r) = some (l, k, r) := by
  have heq := h.combinatorFrom_eq []
  rw [lastCombinator]
  simp only [List.reverse_append, List.reverse_cons, List.append_assoc, List.singleton_append]
  rw [heq, combinatorFrom]
  have htop : top.isTop = true := rfl
  simp [htop, hc]

theorem Joint.exists_combinator (j : Joint) (hs : Edged s) : ∃ u c v, j.print = u ++ c :: v ∧
    (∀ d ∈ u, Text.isAsciiBlank d = true) ∧ (∀ d ∈ v, Text.isAsciiBlank d = true) ∧
    combinatorAt (u.reverse ++ s.reverse) c = some j.combinator ∧
    ∀ left, Passes (c :: left) top v.reverse top := by
  cases j with
  | descendant first rest =>
    have hblanks : ∀ d ∈ first.val :: blanks rest, Text.isAsciiBlank d = true :=
      fun d hd => isAsciiBlank_of_mem_blanks (s := first :: rest) hd
    obtain ⟨u, c, hsplit⟩ := List.eq_nil_or_concat' (first.val :: blanks rest) |>.resolve_left
      (List.cons_ne_nil _ _)
    rw [hsplit] at hblanks
    obtain ⟨t, d, rfl⟩ := List.eq_nil_or_concat' s |>.resolve_left hs.ne_nil
    obtain ⟨-, hjoining⟩ := hs.last d List.getLast?_concat
    simp only [isJoining, Bool.or_eq_false_iff, beq_eq_false_iff_ne] at hjoining
    refine ⟨u, c, [], hsplit, fun e he => hblanks e (List.mem_append_left _ he),
      List.forall_mem_nil _, ?_, fun _ => .nil⟩
    rw [List.reverse_append, List.reverse_singleton, List.singleton_append,
      combinatorAt_blank (hblanks c (by simp))
        (fun e he => hblanks e (List.mem_append_left _ (List.mem_reverse.1 he))) hjoining.2,
      if_neg (not_or.2 hjoining.1)]
    rfl
  | child before after =>
    exact ⟨blanks before, '>', blanks after, rfl, fun _ => isAsciiBlank_of_mem_blanks,
      fun _ => isAsciiBlank_of_mem_blanks, rfl, passes_blanks (.inl rfl) fun _ h =>
        isAsciiBlank_of_mem_blanks (List.mem_reverse.1 h)⟩
  | sibling before after =>
    exact ⟨blanks before, '~', blanks after, rfl, fun _ => isAsciiBlank_of_mem_blanks,
      fun _ => isAsciiBlank_of_mem_blanks, rfl, passes_blanks (.inr rfl) fun _ h =>
        isAsciiBlank_of_mem_blanks (List.mem_reverse.1 h)⟩

theorem Compound.passes (c : Compound) (left : List Char) :
    Passes left top c.print.reverse top :=
  ((c.covers left).mono fun _ h => h.1).passes valid_top

theorem Compound.parse?_print (c : Compound) : Selector.parse? c.print = some c.selector := by
  rw [Selector.parse?_eq, c.edged.tight.trim_eq, if_neg c.edged.ne_nil,
    (c.passes []).lastCombinator_eq_none, c.ofCompound_print]

theorem parse?_between (hs : Edged s) (ht : ∀ c ∈ t, Text.isBlank c = true)
    (hu : ∀ c ∈ u, Text.isBlank c = true) : Selector.parse? (t ++ s ++ u) = Selector.parse? s :=
  Selector.parse?_congr ((hs.tight.trim_between ht hu).trans hs.tight.trim_eq.symm)

theorem Chain.parse?_print (c : Chain) : Selector.parse? c.print = some c.selector := by
  induction c with
  | compound c => exact c.parse?_print
  | join left joint right ih =>
    obtain ⟨u, c, v, hjoint, hu, hv, hat, hpasses⟩ := joint.exists_combinator left.edged
    have hblank : ∀ {s : List Char}, (∀ d ∈ s, Text.isAsciiBlank d = true) →
        ∀ d ∈ s, Text.isBlank d = true := fun h d hd => Text.isBlank_of_isAsciiBlank (h d hd)
    have htext : left.print ++ joint.print ++ right.print =
        (left.print ++ u) ++ c :: (v ++ right.print) := by simp [hjoint]
    have hlast : lastCombinator ((left.print ++ u) ++ c :: (v ++ right.print)) =
        some (left.print ++ u, joint.combinator, v ++ right.print) := by
      refine lastCombinator_of_passes ?_ (by rwa [List.reverse_append])
      rw [show (v ++ right.print).reverse = right.print.reverse ++ v.reverse from
        List.reverse_append]
      exact (right.passes _).append (hpasses _)
    have hedged := (Chain.join left joint right).edged
    have hleft : Selector.parse? (left.print ++ u) = some left.selector :=
      (parse?_between left.edged (t := []) nofun (hblank hu)).trans ih
    have hright : Selector.parse? (v ++ right.print) = some right.selector := by
      have h := parse?_between right.edged (u := []) (hblank hv) nofun
      rw [List.append_nil] at h
      exact h.trans right.parse?_print
    rw [Selector.parse?_eq, hedged.tight.trim_eq, if_neg hedged.ne_nil, print, htext, hlast]
    simp only [hleft, hright]
    rfl

theorem Group.parse?_print (g : Group) : Selector.parse? g.print = some g.selector :=
  (parse?_between g.chain.edged (fun _ => isBlank_of_mem_blanks _)
    (fun _ => isBlank_of_mem_blanks _)).trans g.chain.parse?_print

theorem covers_joining (hs : ∀ c ∈ s, isJoining c = true) (left : List Char) :
    Covers (· ≠ ',') top left s top :=
  covers_of_not_isDelimiter rfl (fun c hc => (isDelimiter_of_isJoining (hs c hc)).1)
    (fun _ c hc => (isDelimiter_of_isJoining (hs c hc)).2) left

theorem isJoining_of_mem_blanks {s : List Blank} : ∀ c ∈ blanks s, isJoining c = true :=
  fun _ h => isJoining_of_isAsciiBlank (isAsciiBlank_of_mem_blanks h)

theorem Joint.isJoining_of_mem (j : Joint) : ∀ c ∈ j.print, isJoining c = true := by
  intro c hc
  cases j with
  | descendant first rest => exact isJoining_of_mem_blanks (s := first :: rest) c hc
  | child before after =>
    rcases List.mem_append.1 hc with hc | hc
    · exact isJoining_of_mem_blanks c hc
    rcases List.mem_cons.1 hc with rfl | hc
    · rfl
    · exact isJoining_of_mem_blanks c hc
  | sibling before after =>
    rcases List.mem_append.1 hc with hc | hc
    · exact isJoining_of_mem_blanks c hc
    rcases List.mem_cons.1 hc with rfl | hc
    · rfl
    · exact isJoining_of_mem_blanks c hc

theorem Chain.covers (c : Chain) (left : List Char) :
    Covers (· ≠ ',') top left c.print top := by
  induction c with
  | compound c => exact (c.covers left).mono fun _ h => h.2
  | join l j r ih =>
    exact (ih.append (covers_joining j.isJoining_of_mem _)).append
      ((r.covers _).mono fun _ h => h.2)

theorem Group.covers (g : Group) (left : List Char) :
    Covers (· ≠ ',') top left g.print top :=
  ((covers_joining isJoining_of_mem_blanks left).append (g.chain.covers _)).append
    (covers_joining isJoining_of_mem_blanks _)

theorem pieces_print (g : Group) (groups : List Group) (left : List Char) :
    pieces ',' top left (print (g :: groups)) = (g :: groups).map (·.print) := by
  induction groups generalizing g left with
  | nil =>
    have h := (g.covers left).pieces_eq []
    simpa [print, pieces] using h
  | cons h rest ih =>
    have hcomma : ∀ left right, pieces ',' top left (',' :: right) =
        [] :: pieces ',' top (',' :: left) right := fun _ _ => rfl
    have htext : print (g :: h :: rest) = g.print ++ ',' :: print (h :: rest) := by
      simp [print]
    rw [htext, (g.covers left).pieces_eq, hcomma, ih]
    simp

theorem lower_append (s t : List Char) :
    Text.lower (s ++ t) = Text.lower s ++ Text.lower t := List.map_append

theorem lower_escape (q : Quote) (s : List Char) :
    Text.lower (escape q.char s) = escape q.char (Text.lower s) := by
  have hquote : q.char.isAlpha = false := by cases q <;> decide
  induction s with
  | nil => rfl
  | cons c s ih =>
    have hback : ('\\').toLower = '\\' := by decide
    simp only [Text.lower, List.map_cons, escape, Text.toLower_eq_iff hquote,
      Text.toLower_eq_iff (c := c) (d := '\\') (by decide)] at ih ⊢
    split
    · simp [hback, ih]
    · simp [ih]

theorem lower_nthArgument (factor offset : Int) :
    Text.lower (nthArgument factor offset) = nthArgument factor offset :=
  Text.lower_eq_self fun _ hc => NthPattern.forall_mem_nthArgument
    (fun _ => Text.toLower_of_isDigit) (by decide) (by decide) (by decide) hc

theorem lower_joining (hs : ∀ c ∈ s, isJoining c = true) : Text.lower s = s := by
  refine Text.lower_eq_self fun c hc => ?_
  have h := hs c hc
  simp only [isJoining, Text.isAsciiBlank, Bool.or_eq_true, beq_iff_eq] at h
  rcases h with (rfl | rfl) | (((rfl | rfl) | rfl) | rfl) | rfl <;> decide

theorem Part.lower_print (x : Part) : Text.lower x.print = x.lower.print := by
  cases x with
  | id name => rfl
  | className name => rfl
  | hasAttribute name => simp [print, lower, Name.lower, Text.lower]
  | «attribute» name operator quote value =>
    have hsign : Text.lower (sign operator) = sign operator := by cases operator <;> rfl
    have hquote : quote.char.toLower = quote.char := by cases quote <;> decide
    have hvalue := lower_escape quote value
    simp only [Text.lower] at hsign hvalue
    simp [print, lower, Name.lower, Text.lower, hsign, hquote, hvalue]
  | pseudo p => cases p <;> rfl
  | nth ofType reverse factor offset =>
    have hname : Text.lower (nthName ofType reverse) = nthName ofType reverse := by
      cases ofType <;> cases reverse <;> rfl
    have hargument := lower_nthArgument factor offset
    simp only [Text.lower] at hname hargument
    simp [print, lower, Text.lower, hname, hargument]

theorem Tag.lower_print (tag : Tag) : Text.lower tag.print = tag.lower.print := by
  cases tag <;> rfl

theorem lower_parts (parts : List Part) : Text.lower (parts.flatMap (·.print)) =
    (parts.map Part.lower).flatMap (·.print) := by
  induction parts with
  | nil => rfl
  | cons x parts ih =>
    rw [List.flatMap_cons, lower_append, x.lower_print, ih, List.map_cons, List.flatMap_cons]

theorem Compound.lower_print (c : Compound) : Text.lower c.print = c.lower.print := by
  cases c with
  | tagged tag parts => rw [print, lower_append, tag.lower_print, lower_parts, lower, print]
  | untagged first rest => rw [print, lower_append, first.lower_print, lower_parts, lower, print]

theorem Chain.lower_print (c : Chain) : Text.lower c.print = c.lower.print := by
  induction c with
  | compound c => exact c.lower_print
  | join left joint right ih =>
    rw [print, lower_append, lower_append, ih, lower_joining joint.isJoining_of_mem,
      right.lower_print, lower, print]

theorem Group.lower_print (g : Group) : Text.lower g.print = g.lower.print := by
  rw [print, lower_append, lower_append, lower_joining isJoining_of_mem_blanks,
    lower_joining isJoining_of_mem_blanks, g.chain.lower_print, lower, print]

end Written

/-- Reading takes back the writing, in small letters, whatever stands in the quotes. -/
theorem SelectorList.parse_print (groups : List Written.Group) :
    SelectorList.parse (.ofList (Written.print groups)) = ⟨groups.map (·.lower.selector)⟩ := by
  have hread : (groups.map (·.print)).filterMap (fun piece => Selector.parse? (Text.lower piece)) =
      groups.map (·.lower.selector) := by
    simp [List.filterMap_map, Written.Group.lower_print, Written.Group.parse?_print]
  rw [parse, String.toList_ofList]
  cases groups with
  | nil =>
    have hblank : Selector.parse? [] = none := by rw [Selector.parse?_eq]; rfl
    simp [Written.print, splitTop, pieces, Text.lower, hblank]
  | cons g rest => rw [splitTop, Written.pieces_print, hread]

end DocTree
