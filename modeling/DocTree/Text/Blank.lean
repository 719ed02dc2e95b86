/-! Blank characters and the words between them.  Two notions of blank are kept apart: the Unicode
property White_Space, at which text is trimmed, and the five ASCII blanks, at which words end. -/

namespace DocTree.Text

def isBlank (c : Char) : Bool :=
  let n := c.toNat
  (0x9 ≤ n && n ≤ 0xd) || n == 0x20 || n == 0x85 || n == 0xa0 || n == 0x1680
    || (0x2000 ≤ n && n ≤ 0x200a) || n == 0x2028 || n == 0x2029 || n == 0x202f || n == 0x205f
    || n == 0x3000

/-- Space, tab, newline, form feed and carriage return; the vertical tab is not one of them. -/
def isAsciiBlank (c : Char) : Bool :=
  c == ' ' || c == '\t' || c == '\n' || c == '\x0c' || c == '\r'

theorem isBlank_of_isAsciiBlank {c : Char} (h : isAsciiBlank c) : isBlank c := by
  simp only [isAsciiBlank, Bool.or_eq_true, beq_iff_eq] at h
  rcases h with (((rfl | rfl) | rfl) | rfl) | rfl <;> decide

def trimLeft (s : List Char) : List Char := s.dropWhile isBlank

def trim (s : List Char) : List Char := (trimLeft (trimLeft s).reverse).reverse

def cut (p : Char → Bool) : List Char → List (List Char)
  | [] => [[]]
  | c :: s => if p c then [] :: cut p s else (cut p s).modifyHead (c :: ·)

def words (s : List Char) : List (List Char) := (cut isAsciiBlank s).filter (!·.isEmpty)

@[simp] theorem words_nil : words [] = [] := rfl

@[simp] theorem words_cons_blank {c : Char} (h : isAsciiBlank c) (s : List Char) :
    words (c :: s) = words s := by
  simp [words, cut, h]

theorem length_trimLeft_le (s : List Char) : (trimLeft s).length ≤ s.length :=
  (List.dropWhile_sublist _).length_le

theorem length_trim_le (s : List Char) : (trim s).length ≤ s.length := by
  have h₁ := length_trimLeft_le s
  have h₂ := length_trimLeft_le (trimLeft s).reverse
  simp only [trim, List.length_reverse] at *
  omega

end DocTree.Text
