import DocTree.Number.Integer
import Mathlib.Algebra.Group.Nat.Defs

namespace DocTree.Integer

variable {n : Nat} {c : Char} {s : List Char}

theorem digit?_of_isDigit (h : c.isDigit = true) : digit? c = some (c.toNat - '0'.toNat) := by
  simp only [Char.isDigit, Bool.and_eq_true, decide_eq_true_eq] at h
  exact if_pos h

theorem isDigit_of_digit? {d : Nat} (h : digit? c = some d) : c.isDigit = true := by
  rw [digit?] at h
  split at h
  next hc =>
    simp only [Char.isDigit, Bool.and_eq_true, decide_eq_true_eq]
    exact hc
  next => cases h

theorem isDigit_of_mem_digits (h : c ∈ digits n) : c.isDigit = true :=
  Nat.isDigit_of_mem_toDigits (by decide) (by decide) h

theorem digits?_eq (h : ∀ c ∈ s, c.isDigit = true) (n : Nat) :
    digits? n s = some (Nat.ofDigitChars 10 s n) := by
  induction s generalizing n with
  | nil => simp [digits?]
  | cons c s ih =>
    rw [digits?, digit?_of_isDigit (h c (by simp)), Option.bind_some,
      ih fun d hd => h d (List.mem_cons_of_mem _ hd), Nat.ofDigitChars_cons]

theorem natural?_eq (hne : s ≠ []) (h : ∀ c ∈ s, c.isDigit = true) :
    natural? s = some (Nat.ofDigitChars 10 s 0) := by
  obtain ⟨c, s, rfl⟩ := List.exists_cons_of_ne_nil hne
  exact digits?_eq h 0

theorem forall_isDigit_of_digits? {m : Nat} (h : digits? n s = some m) :
    ∀ c ∈ s, c.isDigit = true := by
  induction s generalizing n with
  | nil => exact nofun
  | cons c s ih =>
    obtain ⟨d, hd, hs⟩ := Option.bind_eq_some_iff.1 h
    exact List.forall_mem_cons.2 ⟨isDigit_of_digit? hd, ih hs⟩

theorem forall_isDigit_of_natural? (h : natural? s = some n) :
    s ≠ [] ∧ ∀ c ∈ s, c.isDigit = true := by
  cases s with
  | nil => cases h
  | cons c s => exact ⟨List.cons_ne_nil c s, forall_isDigit_of_digits? h⟩

theorem signed?_eq (hne : s ≠ []) (h : ∀ c ∈ s, c.isDigit = true) :
    signed? s = some (Nat.ofDigitChars 10 s 0 : Int) := by
  have hsign : ∀ c t, c.isDigit = false → s ≠ c :: t := by
    rintro c t hc rfl
    exact Bool.false_ne_true (hc.symm.trans (h c List.mem_cons_self))
  rw [signed?, natural?_eq hne h]
  · rfl
  · exact fun t => hsign '+' t (by decide)
  · exact fun t => hsign '-' t (by decide)

theorem digits_ne_nil (n : Nat) : digits n ≠ [] := Nat.toDigits_ne_nil

theorem isDigit_or_eq_of_mem_print {n : Int} (h : c ∈ print n) : c.isDigit = true ∨ c = '-' := by
  rw [print] at h
  split at h
  · rcases List.mem_cons.1 h with rfl | h
    · exact .inr rfl
    · exact .inl (isDigit_of_mem_digits h)
  · exact .inl (isDigit_of_mem_digits h)

end DocTree.Integer
