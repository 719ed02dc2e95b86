import DocTree.Text.Blank
import DocTree.Text.Letter
import Mathlib

namespace DocTree.Text

variable {c : Char} {s t : List Char}

def isNameChar (c : Char) : Bool := c.isAlphanum || c == '-' || c == '_'

def IsName (s : List Char) : Prop := s ≠ [] ∧ ∀ c ∈ s, isNameChar c = true

-- `all` keeps the decision to the characters of the text.
instance (s : List Char) : Decidable (IsName s) :=
  decidable_of_iff (s ≠ [] ∧ s.all isNameChar = true) (and_congr_right' List.all_eq_true)

theorem toNat_lt_of_isNameChar (h : isNameChar c = true) : c.toNat < 128 := by
  simp only [isNameChar, Char.isAlphanum, Char.isAlpha, Char.isUpper, Char.isLower, Char.isDigit,
    Bool.or_eq_true, Bool.and_eq_true, decide_eq_true_eq, beq_iff_eq] at h
  rcases h with ((((⟨-, h⟩ | ⟨-, h⟩) | ⟨-, h⟩) | rfl) | rfl)
  · exact Nat.lt_of_le_of_lt (UInt32.le_iff_toNat_le.1 h) (by decide)
  · exact Nat.lt_of_le_of_lt (UInt32.le_iff_toNat_le.1 h) (by decide)
  · exact Nat.lt_of_le_of_lt (UInt32.le_iff_toNat_le.1 h) (by decide)
  · decide
  · decide

theorem forall_isNameChar {P : Char → Prop}
    (h : ∀ n : Fin 128, isNameChar (Char.ofNat n) = true → P (Char.ofNat n)) (c : Char)
    (hc : isNameChar c = true) : P c := by
  have hp := h ⟨c.toNat, toNat_lt_of_isNameChar hc⟩
  rw [Char.ofNat_toNat] at hp
  exact hp hc

theorem isNameChar_toLower : ∀ c, isNameChar c = true → isNameChar c.toLower = true :=
  forall_isNameChar (by decide)

theorem isBlank_of_isNameChar : ∀ c, isNameChar c = true → isBlank c = false :=
  forall_isNameChar (by decide)

theorem isNameChar_of_isDigit (h : c.isDigit = true) : isNameChar c = true := by
  simp [isNameChar, Char.isAlphanum, h]

theorem isBlank_of_isDigit (h : c.isDigit = true) : isBlank c = false :=
  isBlank_of_isNameChar c (isNameChar_of_isDigit h)

theorem toLower_of_isDigit (h : c.isDigit = true) : c.toLower = c :=
  forall_isNameChar (P := fun c => c.isDigit = true → c.toLower = c) (by decide) c
    (isNameChar_of_isDigit h) h

theorem lower_eq_self (h : ∀ c ∈ s, c.toLower = c) : Text.lower s = s :=
  (List.map_congr_left h).trans (List.map_id s)

theorem IsName.lower (h : IsName s) : IsName (lower s) := by
  refine ⟨by simpa [Text.lower] using h.1, fun c hc => ?_⟩
  obtain ⟨d, hd, rfl⟩ := List.mem_map.1 hc
  exact isNameChar_toLower d (h.2 d hd)

theorem lower_lower (s : List Char) : Text.lower (Text.lower s) = Text.lower s := by
  simp [Text.lower]

structure Tight (s : List Char) : Prop where
  ne_nil : s ≠ []
  first : ∀ c, s.head? = some c → isBlank c = false
  last : ∀ c, s.getLast? = some c → isBlank c = false

theorem tight_of_forall (hne : s ≠ []) (h : ∀ c ∈ s, isBlank c = false) : Tight s where
  ne_nil := hne
  first c hc := h c (List.mem_of_mem_head? hc)
  last c hc := h c (List.mem_of_getLast? hc)

theorem trimLeft_eq_self (h : ∀ c, s.head? = some c → isBlank c = false) : trimLeft s = s := by
  cases s with
  | nil => rfl
  | cons c s => simp [trimLeft, h c rfl]

namespace Tight

theorem trim_eq (h : Tight s) : trim s = s := by
  rw [trim, trimLeft_eq_self h.first, trimLeft_eq_self, List.reverse_reverse]
  intro c hc
  exact h.last c (by rwa [List.head?_reverse] at hc)

theorem trim_cons (h : Tight s) (hc : isBlank c = true) : trim (c :: s) = s := by
  have hleft : trimLeft (c :: s) = trimLeft s := by simp [trimLeft, hc]
  rw [trim, hleft, ← trim, h.trim_eq]

theorem trim_concat (h : Tight s) (hc : isBlank c = true) : trim (s ++ [c]) = s := by
  have hleft : trimLeft (s ++ [c]) = s ++ [c] := by
    obtain ⟨d, s, rfl⟩ := List.exists_cons_of_ne_nil h.ne_nil
    exact trimLeft_eq_self h.first
  have hright : trimLeft (c :: s.reverse) = trimLeft s.reverse := by simp [trimLeft, hc]
  rw [trim, hleft, List.reverse_append, List.reverse_singleton, List.singleton_append, hright]
  have htrim := h.trim_eq
  rwa [trim, trimLeft_eq_self h.first] at htrim

theorem append (hs : Tight s) (ht : Tight t) (u : List Char) : Tight (s ++ u ++ t) := by
  refine ⟨by simp [hs.ne_nil], ?_, ?_⟩
  · obtain ⟨d, s, rfl⟩ := List.exists_cons_of_ne_nil hs.ne_nil
    exact hs.first
  · rw [List.getLast?_append_of_ne_nil _ ht.ne_nil]
    exact ht.last

end Tight

end DocTree.Text
