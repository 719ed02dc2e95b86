import DocTree.Proofs.Text.Name

namespace DocTree.Text

variable {c : Char} {s t u v : List Char}

theorem trim_sublist (s : List Char) : (trim s).Sublist s := by
  have hright := (List.dropWhile_sublist (l := (trimLeft s).reverse) isBlank).reverse
  rw [List.reverse_reverse] at hright
  exact hright.trans (List.dropWhile_sublist _)

theorem trimLeft_blanks (hu : ∀ c ∈ u, isBlank c = true) (s : List Char) :
    trimLeft (u ++ s) = trimLeft s := List.dropWhile_append_of_pos hu

theorem isBlank_of_head?_trimLeft (h : (trimLeft s).head? = some c) : isBlank c = false := by
  have hnot := List.head?_dropWhile_not isBlank s
  rw [← trimLeft, h] at hnot
  simpa using hnot

theorem exists_eq_append_trimLeft (s : List Char) :
    ∃ u, (∀ c ∈ u, isBlank c = true) ∧ s = u ++ trimLeft s :=
  ⟨s.takeWhile isBlank, fun _ => List.mem_takeWhile_imp, List.takeWhile_append_dropWhile.symm⟩

theorem trim_eq_trimLeft (h : ∀ c, s.getLast? = some c → isBlank c = false) :
    trim s = trimLeft s := by
  obtain ⟨u, hu, hs⟩ := exists_eq_append_trimLeft s
  rw [trim, trimLeft_eq_self (s := (trimLeft s).reverse), List.reverse_reverse]
  intro c hc
  rw [List.head?_reverse] at hc
  refine h c ?_
  rw [hs, List.getLast?_append, hc]
  rfl

theorem tight_trim (h : trim s ≠ []) : Tight (trim s) where
  ne_nil := h
  first c hc := by
    obtain ⟨u, -, hs⟩ := exists_eq_append_trimLeft (trimLeft s).reverse
    have hleft : trimLeft s = trim s ++ u.reverse := by
      rw [trim, ← List.reverse_append, ← hs, List.reverse_reverse]
    refine isBlank_of_head?_trimLeft (s := s) ?_
    rw [hleft, List.head?_append, hc]
    rfl
  last c hc := by
    rw [trim, List.getLast?_reverse] at hc
    exact isBlank_of_head?_trimLeft hc

theorem Tight.trim_between (hs : Tight s) (hu : ∀ c ∈ u, isBlank c = true)
    (hv : ∀ c ∈ v, isBlank c = true) : trim (u ++ s ++ v) = s := by
  have hleft : trimLeft (s ++ v) = s ++ v := by
    obtain ⟨c, s, rfl⟩ := List.exists_cons_of_ne_nil hs.ne_nil
    exact trimLeft_eq_self hs.first
  have hright : trimLeft (s ++ v).reverse = trimLeft s.reverse := by
    rw [List.reverse_append, trimLeft_blanks fun c hc => hv c (List.mem_reverse.1 hc)]
  rw [trim, List.append_assoc, trimLeft_blanks hu, hleft, hright]
  have htrim := hs.trim_eq
  rwa [trim, trimLeft_eq_self hs.first] at htrim

end DocTree.Text
