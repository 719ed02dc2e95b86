import DocTree.Proofs.Selector.Backward

/-! Pieces of text whose delimiters match.  Every scan passes such a piece as a whole, wherever it
stands; the scan from the end goes back through the states of the scan from the start. -/

namespace DocTree.Nesting

inductive Moves (left : List Char) : Nesting → Char → Nesting → Prop
  | leave {b r q} (h : escaped left = false) : Moves left ⟨b, r, some q⟩ q ⟨b, r, none⟩
  | quoted {b r q c} (h : c = q → escaped left = true) :
    Moves left ⟨b, r, some q⟩ c ⟨b, r, some q⟩
  | enter {b r c} (hc : isQuote c = true) (hb : 0 < b) (h : escaped left = false) :
    Moves left ⟨b, r, none⟩ c ⟨b, r, some c⟩
  | openBracket {b r} : Moves left ⟨b, r, none⟩ '[' ⟨b + 1, r, none⟩
  | closeBracket {b r} : Moves left ⟨b, r, none⟩ ']' ⟨b - 1, r, none⟩
  | openParen {b r} : Moves left ⟨b, r, none⟩ '(' ⟨b, r + 1, none⟩
  | closeParen {b r} : Moves left ⟨b, r, none⟩ ')' ⟨b, r - 1, none⟩
  | plain {b r c} (hq : isQuote c = true → 0 < b → escaped left = true)
    (hc : c ≠ '[' ∧ c ≠ ']' ∧ c ≠ '(' ∧ c ≠ ')') : Moves left ⟨b, r, none⟩ c ⟨b, r, none⟩

def Valid (n : Nesting) : Prop := ∀ q, n.quote = some q → isQuote q = true ∧ 0 < n.brackets

def Admits (n : Nesting) (c : Char) : Prop :=
  n.quote = none → (c = ']' → 0 < n.brackets) ∧ (c = ')' → 0 < n.parens)

/-- Going right over `s`, with `left` behind, the scan comes from `n` to `m`; nothing closes that is
not open, and the characters at top level satisfy `p`. -/
inductive Covers (p : Char → Prop) : Nesting → List Char → List Char → Nesting → Prop
  | nil {n left} : Covers p n left [] n
  | cons {n left c s m} (hp : n.isTop = true → p c) (hc : n.Admits c)
      (h : Covers p (n.feed .forward left c) (c :: left) s m) : Covers p n left (c :: s) m

variable {p q : Char → Prop} {n m k : Nesting} {c : Char} {s t left right : List Char}

theorem admits_of_ne (hbracket : c ≠ ']') (hparen : c ≠ ')') : n.Admits c :=
  fun _ => ⟨fun h => absurd h hbracket, fun h => absurd h hparen⟩

theorem admits_quoted (b r : Nat) (q c : Char) : Admits ⟨b, r, some q⟩ c :=
  fun h => absurd h (Option.some_ne_none q)

theorem Covers.cons_below (hn : n.isTop = false) (hc : n.Admits c)
    (h : Covers p (n.feed .forward left c) (c :: left) s m) : Covers p n left (c :: s) m :=
  .cons (fun htop => absurd htop (by simp [hn])) hc h

theorem moves_feed (n : Nesting) (left : List Char) (c : Char) :
    Moves left n c (n.feed .forward left c) := by
  obtain ⟨b, r, o⟩ := n
  cases o with
  | some q =>
    simp only [feed]
    split
    next h =>
      obtain ⟨rfl, hleft⟩ : c = q ∧ escaped left = false := by simpa using h
      exact .leave hleft
    next h => exact .quoted (by simpa using h)
  | none =>
    simp only [feed, feedPlain, Direction.openBracket, Direction.closeBracket,
      Direction.openParen, Direction.closeParen, beq_iff_eq]
    split
    next h =>
      obtain ⟨⟨hc, hb⟩, hleft⟩ : (isQuote c = true ∧ 0 < b) ∧ escaped left = false := by
        simpa using h
      exact .enter hc hb hleft
    next hq =>
      split
      next h => exact h ▸ .openBracket
      split
      next h => exact h ▸ .closeBracket
      split
      next h => exact h ▸ .openParen
      split
      next h => exact h ▸ .closeParen
      next => exact .plain (by simpa using hq) (by simp_all)

theorem valid_top : top.Valid := fun _ h => nomatch h

theorem Moves.valid (h : Moves left n c m) (hn : n.Valid) : m.Valid := by
  cases h with
  | quoted => exact hn
  | enter hc hb =>
    rintro _ ⟨⟩
    exact ⟨hc, hb⟩
  | _ => rintro _ ⟨⟩

theorem Moves.feed_backward (h : Moves left n c m) (hn : n.Valid) (hc : n.Admits c) :
    m.feed .backward left c = n := by
  cases h with
  | leave h =>
    obtain ⟨hq, hb⟩ := hn _ rfl
    simp_all [feed, feedPlain]
  | quoted h => simp_all [feed]
  | enter hc hb h => simp [feed, h]
  | openBracket => rfl
  | @closeBracket b r =>
    have hpos : 0 < b := (hc rfl).1 rfl
    exact congrArg (Nesting.mk · r none) (Nat.sub_add_cancel hpos)
  | openParen => rfl
  | @closeParen b r =>
    have hpos : 0 < r := (hc rfl).2 rfl
    exact congrArg (Nesting.mk b · none) (Nat.sub_add_cancel hpos)
  | plain hq hc =>
    simp_all [feed, feedPlain, Direction.openBracket, Direction.closeBracket,
      Direction.openParen, Direction.closeParen]

theorem Moves.closes (h : Moves left n c m) (hn : n.Valid) (htop : n.isTop = false)
    (hm : m.isTop = true) : c = ']' ∨ c = ')' := by
  cases h with
  | closeBracket => exact .inl rfl
  | closeParen => exact .inr rfl
  | leave =>
    obtain ⟨-, hb⟩ := hn _ rfl
    simp_all [isTop]
  | _ => simp_all [isTop]

theorem Covers.append (hs : Covers p n left s k) (ht : Covers p k (s.reverse ++ left) t m) :
    Covers p n left (s ++ t) m := by
  induction hs with
  | nil => exact ht
  | cons hp hc _ ih =>
    refine .cons hp hc (ih ?_)
    simpa using ht

theorem Covers.mono (h : Covers p n left s m) (hpq : ∀ c, p c → q c) : Covers q n left s m := by
  induction h with
  | nil => exact .nil
  | cons hp hc _ ih => exact .cons (fun htop => hpq _ (hp htop)) hc ih

theorem Covers.pieces_eq {separator : Char} (h : Covers (· ≠ separator) n left s m)
    (right : List Char) : pieces separator n left (s ++ right) =
      (pieces separator m (s.reverse ++ left) right).modifyHead (s ++ ·) := by
  induction h with
  | nil => exact (congrFun List.modifyHead_id _).symm
  | @cons n left c s m hp hc h ih =>
    have hsep : (c == separator && n.isTop) = false := by
      by_contra hsep
      obtain ⟨heq, htop⟩ : c = separator ∧ n.isTop = true := by simpa using hsep
      exact hp htop heq
    rw [List.cons_append, pieces, ih, hsep]
    simp [List.modifyHead_modifyHead, Function.comp_def]

theorem Covers.partsFrom_eq (h : Covers (startsPart · = false) n left s m) (right : List Char) :
    n.partsFrom left (s ++ right) =
      (s ++ (m.partsFrom (s.reverse ++ left) right).1,
        (m.partsFrom (s.reverse ++ left) right).2) := by
  induction h with
  | nil => rfl
  | @cons n left c s m hp hc h ih =>
    have hstart : (n.isTop && startsPart c) = false := by
      by_contra hstart
      obtain ⟨htop, hc⟩ : n.isTop = true ∧ startsPart c = true := by simpa using hstart
      exact Bool.false_ne_true ((hp htop).symm.trans hc)
    rw [List.cons_append, partsFrom, ih, hstart]
    simp

theorem Passes.append (hs : Passes (t ++ left) n s k) (ht : Passes left k t m) :
    Passes left n (s ++ t) m := by
  induction hs with
  | nil => exact ht
  | cons hc _ ih =>
    rw [← List.append_assoc] at hc ih
    exact .cons hc (ih ht)

theorem Covers.passes (h : Covers (isJoining · = false) n left s m) (hn : n.Valid) :
    Passes left m s.reverse n := by
  induction h with
  | nil => exact .nil
  | @cons n left c s m hp hc h ih =>
    have hmoves := moves_feed n left c
    rw [List.reverse_cons]
    refine (ih (hmoves.valid hn)).append (.cons (fun hm => ?_) ?_)
    · refine combinatorAt_of_isJoining ?_ _
      cases htop : n.isTop with
      | true => exact hp htop
      | false =>
        rcases hmoves.closes hn htop hm with rfl | rfl <;> rfl
    · rw [List.nil_append, hmoves.feed_backward hn hc]
      exact .nil

end DocTree.Nesting
