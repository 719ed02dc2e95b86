import DocTree.Proofs.Selector.Reading

namespace DocTree.Markup

open Nesting (top)
open Text (IsName Tight)

def placeText : Option Nat → List Char
  | none => "root".toList
  | some k => "nth-child".toList ++ '(' :: (Integer.digits k ++ [')'])

theorem placeText_some (k : Nat) :
    placeText (some k) = "nth-child".toList ++ '(' :: (Integer.digits k ++ [')']) := rfl

def placePredicate : Option Nat → Predicate
  | none => .root
  | some k => .nthChild ⟨0, k, false⟩

def stepText (name : List Char) (place : Option Nat) : List Char := name ++ ':' :: placeText place

def stepSelector (name : List Char) (place : Option Nat) : Selector :=
  .all [.tag (.ofList name), placePredicate place]

variable {name s t : List Char} {place : Option Nat} {k : Nat} {c : Char}

theorem isName_root : IsName "root".toList := by decide

theorem isName_nthChild : IsName "nth-child".toList := by decide

theorem mem_placeText (h : c ∈ placeText place) :
    Text.isNameChar c = true ∨ c = '(' ∨ c = ')' := by
  cases place with
  | none => exact .inl (isName_root.2 c h)
  | some k =>
    rcases List.mem_append.1 h with h | h
    · exact .inl (isName_nthChild.2 c h)
    · rw [List.mem_cons, List.mem_append, List.mem_singleton] at h
      rcases h with h | h | h
      · exact .inr (.inl h)
      · exact .inl (Text.isNameChar_of_isDigit (Integer.isDigit_of_mem_digits h))
      · exact .inr (.inr h)

theorem mem_stepText (hname : IsName name) (h : c ∈ stepText name place) :
    Text.isNameChar c = true ∨ c = ':' ∨ c = '(' ∨ c = ')' := by
  rcases List.mem_append.1 h with h | h
  · exact .inl (hname.2 c h)
  · rcases List.mem_cons.1 h with h | h
    · exact .inr (.inl h)
    · exact (mem_placeText h).imp_right .inr

theorem isNameChar_digits (k : Nat) : ∀ c ∈ Integer.digits k, Text.isNameChar c = true :=
  fun _ hc => Text.isNameChar_of_isDigit (Integer.isDigit_of_mem_digits hc)

theorem solid_placeText (place : Option Nat) : top.Solid (placeText place) := by
  cases place with
  | none => exact Nesting.solid_name rfl isName_root.2
  | some k =>
    exact (Nesting.solid_name rfl isName_nthChild.2).append
      (Nesting.solid_parens (isNameChar_digits k))

theorem closed_stepText (hname : IsName name) (place : Option Nat) :
    top.Closed (stepText name place) := by
  have hquiet : ∀ {s : List Char}, (∀ c ∈ s, Text.isNameChar c = true) → top.Closed s :=
    fun hs => Nesting.closed_quiet rfl fun c hc => Nesting.isQuiet_of_isNameChar (hs c hc)
  have hcolon : top.Closed [':'] := Nesting.closed_quiet rfl (List.all_eq_true.1 (by decide))
  have hplace : top.Closed (placeText place) := by
    cases place with
    | none => exact hquiet isName_root.2
    | some k =>
      exact (hquiet isName_nthChild.2).append (Nesting.closed_parens fun c hc =>
        Nesting.isQuiet_of_isNameChar (isNameChar_digits k c hc))
  exact (hquiet hname.2).append (hcolon.append hplace)

theorem tight_stepText (hname : IsName name) (place : Option Nat) : Tight (stepText name place) := by
  apply Text.tight_of_forall
  · simp [stepText]
  · intro c hc
    rcases mem_stepText hname hc with h | rfl | rfl | rfl
    · exact Text.isBlank_of_isNameChar c h
    · decide
    · decide
    · decide

theorem ofPart_placeText (hk : ∀ k, place = some k → k < 2 ^ 63) :
    Predicate.ofPart (':' :: placeText place) = some (placePredicate place) := by
  cases place with
  | none => exact Predicate.ofPart_root
  | some k => exact Predicate.ofPart_nthChild (hk k rfl)

theorem ofCompound_stepText (hname : IsName name) (hk : ∀ k, place = some k → k < 2 ^ 63) :
    Selector.ofCompound (stepText name place) = stepSelector name place :=
  Selector.ofCompound_name hname (solid_placeText place) (ofPart_placeText hk)

theorem comma_notMem_stepText (hname : IsName name) (place : Option Nat) :
    ',' ∉ stepText name place := by
  intro h
  rcases mem_stepText hname h with h | h | h | h <;> revert h <;> decide

theorem lower_placeText (place : Option Nat) : Text.lower (placeText place) = placeText place := by
  cases place with
  | none => decide
  | some k =>
    have hnth : Text.lower "nth-child".toList = "nth-child".toList := by decide
    have hdigits : Text.lower (Integer.digits k) = Integer.digits k :=
      Text.lower_eq_self fun _ hc => Text.toLower_of_isDigit (Integer.isDigit_of_mem_digits hc)
    rw [Text.lower] at hnth hdigits ⊢
    rw [placeText_some, List.map_append, List.map_cons, List.map_append, hnth, hdigits]
    rfl

theorem lower_stepText (hname : Text.lower name = name) (place : Option Nat) :
    Text.lower (stepText name place) = stepText name place := by
  have hplace := lower_placeText place
  rw [Text.lower] at hname hplace ⊢
  rw [stepText, List.map_append, List.map_cons, hname, hplace]
  rfl

end DocTree.Markup
