namespace DocTree.Text

def lower (s : List Char) : List Char := s.map Char.toLower

def lowerString (s : String) : String := .ofList (lower s.toList)

def sameIgnoringCase (s t : String) : Bool := lowerString s == lowerString t

@[simp] theorem toList_lowerString (s : String) : (lowerString s).toList = lower s.toList := by
  simp [lowerString]

theorem sameIgnoringCase_iff {s t : String} :
    sameIgnoringCase s t ↔ lower s.toList = lower t.toList := by
  rw [sameIgnoringCase, beq_iff_eq, ← String.toList_inj, toList_lowerString, toList_lowerString]

end DocTree.Text
