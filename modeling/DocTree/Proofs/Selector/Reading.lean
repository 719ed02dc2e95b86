import DocTree.Proofs.Selector.Argument
import DocTree.Selector.Parser
import Mathlib.Data.List.TakeWhile

namespace DocTree

namespace Nesting

def isQuiet (c : Char) : Bool := Text.isNameChar c || c == ':'

variable {n : Nesting} {c d : Char} {s t left right : List Char}

theorem isQuiet_of_isNameChar (h : Text.isNameChar c = true) : isQuiet c = true := by
  rw [isQuiet, h, Bool.true_or]

theorem ne_of_isQuiet (h : isQuiet c = true) (hd : isQuiet d = false) : c ≠ d := by
  rintro rfl
  exact Bool.false_ne_true (hd.symm.trans h)

theorem feed_quiet (h : isQuiet c = true) (hn : n.quote = none) (d : Direction)
    (left : List Char) : n.feed d left c = n := by
  have hq : isQuote c = false := by
    simp [isQuote, ne_of_isQuiet h (d := '"') rfl, ne_of_isQuiet h (d := '\'') rfl]
  have hne := fun {d} => ne_of_isQuiet (d := d) h
  cases d <;>
    simp [feed, hn, feedPlain, hq, Direction.openBracket, Direction.closeBracket,
      Direction.openParen, Direction.closeParen, hne (d := '[') rfl, hne (d := ']') rfl,
      hne (d := '(') rfl, hne (d := ')') rfl]

theorem combinatorAt_quiet (h : isQuiet c = true) (left : List Char) :
    combinatorAt left c = none := by
  have hne := fun {d} => ne_of_isQuiet (d := d) h
  simp [combinatorAt, Text.isAsciiBlank, hne (d := '>') rfl, hne (d := '~') rfl,
    hne (d := ' ') rfl, hne (d := '\t') rfl, hne (d := '\n') rfl, hne (d := '\x0c') rfl,
    hne (d := '\r') rfl]

def Closed (n : Nesting) (s : List Char) : Prop :=
  ∀ left right, combinatorFrom n (s.reverse ++ left) right = combinatorFrom n left (s ++ right)

theorem Closed.append (hs : n.Closed s) (ht : n.Closed t) : n.Closed (s ++ t) := by
  intro left right
  rw [List.reverse_append, List.append_assoc, ht, hs, List.append_assoc]

theorem closed_quiet (hn : n.quote = none) (hs : ∀ c ∈ s, isQuiet c = true) : n.Closed s := by
  induction s with
  | nil => exact fun _ _ => rfl
  | cons c s ih =>
    have hc : n.Closed [c] := by
      intro left right
      have hcq := hs c (by simp)
      simp [combinatorFrom, combinatorAt_quiet hcq, feed_quiet hcq hn]
    exact hc.append (ih fun d hd => hs d (List.mem_cons_of_mem _ hd))

theorem closed_parens (hs : ∀ c ∈ s, isQuiet c = true) : top.Closed ('(' :: (s ++ [')'])) := by
  intro left right
  have hinner : (⟨0, 1, none⟩ : Nesting).Closed s := closed_quiet rfl hs
  have hclose : combinatorFrom top (')' :: (s.reverse ++ ('(' :: left))) right =
      combinatorFrom ⟨0, 1, none⟩ (s.reverse ++ ('(' :: left)) (')' :: right) := rfl
  have hopen : combinatorFrom ⟨0, 1, none⟩ ('(' :: left) (s ++ ')' :: right) =
      combinatorFrom top left ('(' :: (s ++ ')' :: right)) := rfl
  simp only [List.reverse_cons, List.reverse_append, List.reverse_nil, List.nil_append,
    List.append_assoc, List.cons_append]
  rw [hclose, hinner, hopen]

theorem lastCombinator_closed (hs : top.Closed s) : lastCombinator s = none := by
  have h := hs [] []
  rw [List.append_nil, List.append_nil] at h
  rw [lastCombinator, h, combinatorFrom]

theorem lastCombinator_child (hs : top.Closed s) (left : List Char) :
    lastCombinator (left ++ ' ' :: '>' :: ' ' :: s) =
      some (left ++ [' '], .child, ' ' :: s) := by
  have h := hs (' ' :: '>' :: ' ' :: left.reverse) []
  have hfind : combinatorFrom top (' ' :: '>' :: ' ' :: left.reverse) s =
      some ((' ' :: left.reverse).reverse, .child, ' ' :: s) := rfl
  rw [lastCombinator]
  simp only [List.reverse_append, List.reverse_cons, List.append_assoc, List.cons_append,
    List.nil_append] at h ⊢
  rw [h, List.append_nil, hfind, List.reverse_cons, List.reverse_reverse]

def Solid (n : Nesting) (s : List Char) : Prop :=
  ∀ left right, n.partsFrom left (s ++ right) =
    (s ++ (n.partsFrom (s.reverse ++ left) right).1, (n.partsFrom (s.reverse ++ left) right).2)

theorem Solid.append (hs : n.Solid s) (ht : n.Solid t) : n.Solid (s ++ t) := by
  intro left right
  rw [List.append_assoc, hs, ht, List.reverse_append, List.append_assoc]
  simp

theorem not_startsPart (h : Text.isNameChar c = true) : startsPart c = false := by
  have hne : ∀ d, Text.isNameChar d = false → c ≠ d := by
    rintro d hd rfl
    exact Bool.false_ne_true (hd.symm.trans h)
  simp [startsPart, hne '.' rfl, hne '#' rfl, hne '[' rfl, hne ':' rfl]

theorem solid_name (hn : n.quote = none) (hs : ∀ c ∈ s, Text.isNameChar c = true) : n.Solid s := by
  induction s with
  | nil => exact fun _ _ => rfl
  | cons c s ih =>
    have hc : n.Solid [c] := by
      intro left right
      have hname := hs c (by simp)
      simp [partsFrom, not_startsPart hname, feed_quiet (isQuiet_of_isNameChar hname) hn]
    exact hc.append (ih fun d hd => hs d (List.mem_cons_of_mem _ hd))

theorem solid_parens (hs : ∀ c ∈ s, Text.isNameChar c = true) : top.Solid ('(' :: (s ++ [')'])) := by
  intro left right
  have hinner : (⟨0, 1, none⟩ : Nesting).Solid s := solid_name rfl hs
  have hopen : ∀ u, top.partsFrom left ('(' :: u) =
      ('(' :: (partsFrom ⟨0, 1, none⟩ ('(' :: left) u).1,
        (partsFrom ⟨0, 1, none⟩ ('(' :: left) u).2) := fun _ => rfl
  have hclose : ∀ left, partsFrom ⟨0, 1, none⟩ left (')' :: right) =
      (')' :: (top.partsFrom (')' :: left) right).1, (top.partsFrom (')' :: left) right).2) :=
    fun _ => rfl
  rw [List.cons_append, hopen, List.append_assoc, hinner, List.singleton_append, hclose]
  simp

theorem splitCompound_name (hc : Text.isNameChar c = true)
    (hs : ∀ c ∈ s, Text.isNameChar c = true) (ht : top.Solid t) :
    splitCompound (c :: s ++ ':' :: t) = [c :: s, ':' :: t] := by
  have htail : ∀ left, top.partsFrom left t = (t, []) := by
    intro left
    have h := ht left []
    rwa [List.append_nil, partsFrom, List.append_nil] at h
  have hpart : ∀ left, top.partsFrom left (':' :: t) = ([], [':' :: t]) := by
    intro left
    have hfeed : top.feed .forward left ':' = top := feed_quiet rfl rfl _ _
    rw [partsFrom, hfeed, htail]
    rfl
  rw [List.cons_append, splitCompound, feed_quiet (isQuiet_of_isNameChar hc) rfl,
    solid_name (n := top) rfl hs, hpart, List.append_nil]

theorem pieces_eq_singleton {separator : Char} (hs : separator ∉ s) (n : Nesting)
    (left : List Char) : pieces separator n left s = [s] := by
  induction s generalizing n left with
  | nil => rfl
  | cons c s ih =>
    rw [List.mem_cons, not_or] at hs
    rw [pieces, ih hs.2]
    simp [Ne.symm hs.1]

theorem splitTop_eq_singleton {separator : Char} (hs : separator ∉ s) :
    splitTop separator s = [s] :=
  pieces_eq_singleton hs top []

end Nesting

namespace Predicate

variable {c : Char} {s : List Char} {n : Nat}

theorem ofPart_name (hne : s ≠ []) (hs : ∀ c ∈ s, Text.isNameChar c = true) :
    ofPart s = some (.tag (.ofList s)) := by
  have hstart : ∀ c t, s = c :: t → Nesting.startsPart c = false := by
    rintro c t rfl
    exact Nesting.not_startsPart (hs c (by simp))
  unfold ofPart
  split
  · exact absurd (hstart _ _ rfl) (by decide)
  · exact absurd (hstart _ _ rfl) (by decide)
  · exact absurd (hstart _ _ rfl) (by decide)
  · exact absurd (hstart _ _ rfl) (by decide)
  · rfl

theorem ofPart_root : ofPart ":root".toList = some .root := by decide

theorem parse?_digits (h : n < 2 ^ 63) :
    NthPattern.parse? (Integer.digits n) = some (0, (n : Int)) := by
  have hrange : Integer.InRange (n : Int) := by
    constructor <;> omega
  have hread := NthPattern.parse?_print (.integer none (.ofNat n))
  simp only [Written.Argument.factor, Written.Argument.offset, Written.signed,
    Written.Digits.value_ofNat] at hread
  rwa [if_pos ⟨by decide, hrange⟩] at hread

theorem ofList_ne {t : String} (hs : c ∈ s) (ht : c ∉ t.toList) : String.ofList s ≠ t := by
  rintro rfl
  exact ht (by simpa using hs)

theorem ofPart_nthChild (h : n < 2 ^ 63) :
    ofPart (':' :: "nth-child(".toList ++ Integer.digits n ++ [')']) =
      some (.nthChild ⟨0, n, false⟩) := by
  have hfixed : fixed.lookup (.ofList (':' :: "nth-child(".toList ++ Integer.digits n ++ [')'])) =
      none := by
    rw [List.lookup_eq_none_iff]
    intro p hp
    have hplain : ∀ p ∈ fixed, '(' ∉ p.1.toList := by decide
    have hmem : '(' ∈ ':' :: "nth-child(".toList ++ Integer.digits n ++ [')'] := by
      rw [List.append_assoc]
      exact List.mem_append_left _ (by decide)
    exact bne_iff_ne.2 (ofList_ne hmem (hplain p hp))
  have hnth : nth? (':' :: "nth-child(".toList ++ Integer.digits n ++ [')']) =
      some (false, ⟨0, n, false⟩) := by
    have hargument : argument? (':' :: "nth-child(".toList ++ Integer.digits n ++ [')']) =
        some (Integer.digits n) := by
      have hdrop : (':' :: "nth-child(".toList ++ Integer.digits n ++ [')']).dropWhile (· != '(') =
          '(' :: (Integer.digits n ++ [')']) := rfl
      simp only [argument?, hdrop]
      simp
    have hname : (':' :: "nth-child(".toList ++ Integer.digits n ++ [')']).takeWhile (· != '(') =
        ":nth-child".toList := rfl
    have hlookup : counted.lookup ":nth-child" = some (false, false) := by decide
    simp only [nth?, hargument, hname, String.ofList_toList, hlookup, parse?_digits h,
      Option.bind_eq_bind, Option.bind_some, Option.pure_def]
  rw [List.cons_append, List.cons_append, ofPart, ofPseudoClass]
  simp only [List.cons_append] at hfixed hnth
  rw [hfixed, hnth]
  rfl

end Predicate

namespace Selector

open Nesting (top)
open Text (Tight)

variable {s t : List Char}

theorem parse?_eq (s : List Char) :
    parse? s = if Text.trim s = [] then none
      else match lastCombinator (Text.trim s) with
        | none => some (ofCompound (Text.trim s))
        | some (l, k, r) => some (.combined k ((parse? l).getD never) ((parse? r).getD never)) := by
  rw [parse?]
  split
  · rfl
  · split <;> simp_all

theorem parse?_congr (h : Text.trim s = Text.trim t) : parse? s = parse? t := by
  rw [parse?_eq s, parse?_eq t, h]

theorem parse?_compound (h : Tight s) (hs : top.Closed s) : parse? s = some (ofCompound s) := by
  rw [parse?_eq, h.trim_eq, if_neg h.ne_nil, Nesting.lastCombinator_closed hs]

theorem parse?_child (hs : Tight s) (ht : Tight t) (hclosed : top.Closed t) :
    parse? (s ++ ' ' :: '>' :: ' ' :: t) =
      some (.combined .child ((parse? s).getD never) ((parse? t).getD never)) := by
  have htight : Tight (s ++ ' ' :: '>' :: ' ' :: t) := by
    simpa using hs.append ht [' ', '>', ' ']
  have hblank : Text.isBlank ' ' = true := by decide
  have hl : parse? (s ++ [' ']) = parse? s :=
    parse?_congr ((hs.trim_concat hblank).trans hs.trim_eq.symm)
  have hr : parse? (' ' :: t) = parse? t :=
    parse?_congr ((ht.trim_cons hblank).trans ht.trim_eq.symm)
  rw [parse?_eq, htight.trim_eq, if_neg (by simp), Nesting.lastCombinator_child hclosed, ← hl,
    ← hr]

theorem ofCompound_name {name : List Char} {p : Predicate} (hname : Text.IsName name)
    (hs : top.Solid s) (hp : Predicate.ofPart (':' :: s) = some p) :
    ofCompound (name ++ ':' :: s) = .all [.tag (.ofList name), p] := by
  have htag := Predicate.ofPart_name hname.1 hname.2
  obtain ⟨c, name, rfl⟩ := List.exists_cons_of_ne_nil hname.1
  have hsplit := Nesting.splitCompound_name (hname.2 c (by simp))
    (fun d hd => hname.2 d (List.mem_cons_of_mem _ hd)) hs
  rw [ofCompound, hsplit, List.filterMap_cons_some htag, List.filterMap_cons_some hp,
    List.filterMap_nil]

end Selector

end DocTree
