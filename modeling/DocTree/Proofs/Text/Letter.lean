import DocTree.Attribute.Store
import DocTree.Proofs.Text.Name

namespace DocTree

namespace Text

variable {c d : Char} {s t : List Char}

theorem toLower_eq_iff (hd : d.isAlpha = false) : c.toLower = d ↔ c = d := by
  have hlower : ∀ e : Char, e.isAlpha = false → e.toLower = e := fun e he =>
    Char.toLower_eq_of_not_isUpper fun hupper => by simp [Char.isAlpha, hupper] at he
  refine ⟨?_, fun h => h ▸ hlower d hd⟩
  rintro rfl
  rw [Char.isAlpha_toLower_eq_isAlpha] at hd
  exact (hlower c hd).symm

theorem toLower_beq (hd : d.isAlpha = false) (c : Char) : (c.toLower == d) = (c == d) := by
  rw [← Bool.coe_iff_coe, beq_iff_eq, beq_iff_eq, toLower_eq_iff hd]

@[simp] theorem isAsciiBlank_toLower (c : Char) : isAsciiBlank c.toLower = isAsciiBlank c := by
  simp (disch := decide) only [isAsciiBlank, toLower_beq]

@[simp] theorem lowerString_lowerString (s : String) :
    lowerString (lowerString s) = lowerString s := by
  rw [lowerString, toList_lowerString, lower_lower, lowerString]

theorem lower_cons (c : Char) (s : List Char) : lower (c :: s) = c.toLower :: lower s := rfl

theorem sameIgnoringCase_congr {s t u : String} (h : lower s.toList = lower t.toList) :
    sameIgnoringCase s u = sameIgnoringCase t u := by
  simp only [sameIgnoringCase, lowerString, h]

theorem cut_lower {p : Char → Bool} (hp : ∀ c, p c.toLower = p c) (s : List Char) :
    cut p (lower s) = (cut p s).map lower := by
  induction s with
  | nil => rfl
  | cons c s ih =>
    rw [lower_cons, cut, cut, hp, ih]
    split
    · rfl
    · cases cut p s <;> rfl

theorem words_lower (s : List Char) : words (lower s) = (words s).map lower := by
  have hempty : (fun w => !w.isEmpty) ∘ lower = fun w : List Char => !w.isEmpty := by
    funext w
    simp [lower]
  rw [words, cut_lower isAsciiBlank_toLower, List.filter_map, hempty, words]

end Text

theorem classTokens_congr {s t : String} (h : Text.lower s.toList = Text.lower t.toList) :
    classTokens s = classTokens t := by
  have hwords : ∀ u : String, classTokens u = (Text.words (Text.lower u.toList)).map .ofList := by
    intro u
    rw [Text.words_lower, List.map_map]
    rfl
  rw [hwords, hwords, h]

end DocTree
