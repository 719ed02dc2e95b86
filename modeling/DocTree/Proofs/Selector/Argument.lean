import DocTree.Proofs.Number.Decimal
import DocTree.Proofs.Text.Name
import DocTree.Selector.Nth

namespace DocTree

namespace Written

abbrev Digits := { s : List Char // s ≠ [] ∧ ∀ c ∈ s, c.isDigit = true }

inductive Sign
  | plus
  | minus
  deriving DecidableEq

inductive Argument
  | odd
  | even
  | integer (sign : Option Sign) (digits : Digits)
  | multiple (sign : Option Sign) (digits : Option Digits) (offset : Option (Sign × Digits))

def Sign.char : Sign → Char
  | .plus => '+'
  | .minus => '-'

def signText : Option Sign → List Char
  | none => []
  | some sign => [sign.char]

def digitsText : Option Digits → List Char
  | none => []
  | some digits => digits

def offsetText : Option (Sign × Digits) → List Char
  | none => []
  | some (sign, digits) => sign.char :: digits

def Argument.print : Argument → List Char
  | .odd => ['o', 'd', 'd']
  | .even => ['e', 'v', 'e', 'n']
  | .integer sign digits => signText sign ++ digits
  | .multiple sign digits offset => signText sign ++ digitsText digits ++ 'n' :: offsetText offset

def Sign.apply : Sign → Nat → Int
  | .plus, n => n
  | .minus, n => -n

def signed : Option Sign → Nat → Int
  | none, n => n
  | some sign, n => sign.apply n

def Digits.value (digits : Digits) : Nat := Nat.ofDigitChars 10 digits 0

def Argument.factor : Argument → Int
  | .odd => 2
  | .even => 2
  | .integer _ _ => 0
  | .multiple sign none _ => signed sign 1
  | .multiple sign (some digits) _ => signed sign (Digits.value digits)

def Argument.offset : Argument → Int
  | .odd => 1
  | .even => 0
  | .integer sign digits => signed sign (Digits.value digits)
  | .multiple _ _ none => 0
  | .multiple _ _ (some (sign, digits)) => sign.apply (Digits.value digits)

variable {c : Char} {s : List Char} {n : Int}

theorem Digits.ne_cons (digits : Digits) (hc : c.isDigit = false) (s : List Char) :
    digits.val ≠ c :: s := by
  intro h
  have hdigit := digits.2.2 c (h ▸ List.mem_cons_self)
  exact Bool.false_ne_true (hc.symm.trans hdigit)

theorem signed?_signText (sign : Option Sign) (digits : Digits) :
    Integer.signed? (signText sign ++ digits) = some (signed sign (Digits.value digits)) := by
  have hnatural := Integer.natural?_eq digits.2.1 digits.2.2
  match sign with
  | none => exact Integer.signed?_eq digits.2.1 digits.2.2
  | some .plus => exact congrArg (Option.map Int.ofNat) hnatural
  | some .minus => exact congrArg (Option.map fun n => -Int.ofNat n) hnatural

theorem read?_signText (sign : Option Sign) (digits : Digits) :
    Integer.read? (signText sign ++ digits) =
      Option.guard (Integer.InRange ·) (signed sign (Digits.value digits)) := by
  rw [Integer.read?, signed?_signText, Option.filter_some, Option.guard]

def isFigure (c : Char) : Bool := c.isDigit || c == '+' || c == '-'

theorem isFigure_of_mem (sign : Option Sign) (digits : Option Digits)
    (h : c ∈ signText sign ++ digitsText digits) : isFigure c = true := by
  rcases List.mem_append.1 h with h | h
  · match sign with
    | some .plus => exact List.mem_singleton.1 h ▸ rfl
    | some .minus => exact List.mem_singleton.1 h ▸ rfl
  · match digits with
    | some digits => simp [isFigure, digits.2.2 c h]

theorem isBlank_of_isFigure (h : isFigure c = true) : Text.isBlank c = false := by
  simp only [isFigure, Bool.or_eq_true, beq_iff_eq] at h
  rcases h with (h | rfl) | rfl
  · exact Text.isBlank_of_isDigit h
  · decide
  · decide

theorem Argument.isBlank_of_mem_print (w : Argument) : ∀ c ∈ w.print, Text.isBlank c = false := by
  intro c hc
  have hletters : ∀ s : List Char, s.all Text.isNameChar = true → c ∈ s → Text.isBlank c = false :=
    fun s hs hc => Text.isBlank_of_isNameChar c (List.all_eq_true.1 hs c hc)
  match w with
  | .odd => exact hletters _ rfl hc
  | .even => exact hletters _ rfl hc
  | .integer sign digits => exact isBlank_of_isFigure (isFigure_of_mem sign (some digits) hc)
  | .multiple sign digits offset =>
    rcases List.mem_append.1 hc with hc | hc
    · exact isBlank_of_isFigure (isFigure_of_mem sign digits hc)
    rcases List.mem_cons.1 hc with rfl | hc
    · decide
    match offset with
    | some (sign, digits) =>
      exact isBlank_of_isFigure (isFigure_of_mem (some sign) (some digits) hc)

def Digits.ofNat (n : Nat) : Digits :=
  ⟨Integer.digits n, Integer.digits_ne_nil n, fun _ => Integer.isDigit_of_mem_digits⟩

@[simp] theorem Digits.value_ofNat (n : Nat) : Digits.value (Digits.ofNat n) = n :=
  Nat.ofDigitChars_ten_toDigits

def Sign.ofInt (n : Int) : Sign := if n < 0 then .minus else .plus

theorem Sign.apply_natAbs (n : Int) : (ofInt n).apply n.natAbs = n := by
  rw [ofInt]
  split
  next h => exact Int.neg_eq_comm.1 (Int.ofNat_natAbs_of_nonpos (Int.le_of_lt h)).symm
  next h => exact Int.natAbs_of_nonneg (Int.not_lt.1 h)

def Argument.ofNumbers (factor : Int) (sign : Sign) (offset : Nat) : Argument :=
  .multiple (if factor < 0 then some .minus else none) (some (.ofNat factor.natAbs))
    (some (sign, .ofNat offset))

@[simp] theorem Argument.factor_ofNumbers (factor : Int) (sign : Sign) (offset : Nat) :
    (ofNumbers factor sign offset).factor = factor := by
  have hsign : signed (if factor < 0 then some .minus else none) factor.natAbs =
      (Sign.ofInt factor).apply factor.natAbs := by
    rw [Sign.ofInt]
    split <;> rfl
  rw [ofNumbers, Argument.factor, Digits.value_ofNat, hsign, Sign.apply_natAbs]

@[simp] theorem Argument.offset_ofNumbers (factor : Int) (sign : Sign) (offset : Nat) :
    (ofNumbers factor sign offset).offset = sign.apply offset :=
  congrArg sign.apply (Digits.value_ofNat offset)

theorem Argument.print_ofNumbers (factor : Int) (sign : Sign) (offset : Nat) :
    (ofNumbers factor sign offset).print =
      Integer.print factor ++ 'n' :: sign.char :: Integer.digits offset := by
  rw [ofNumbers, Argument.print, Integer.print]
  split <;> rfl

end Written

namespace NthPattern

open Written

variable {c : Char} {s t : List Char}

theorem ne_of_digit (hs : ∃ d ∈ s, d.isDigit = true) (ht : ∀ c ∈ t, c.isDigit = false) : s ≠ t := by
  rintro rfl
  obtain ⟨d, hd, hdigit⟩ := hs
  exact Bool.false_ne_true ((ht d hd).symm.trans hdigit)

theorem offset?_signText (sign : Option Sign) (digits : Digits) :
    offset? (signText sign ++ digits) =
      Option.guard (Integer.InRange ·) (signed sign (Digits.value digits)) := by
  have hread := read?_signText sign digits
  match sign with
  | none =>
    rw [← hread, signText, List.nil_append, offset?]
    exact digits.ne_cons (by decide)
  | some .plus =>
    have hplain := read?_signText none digits
    rw [signText, List.nil_append] at hplain
    have hpos : decide (0 ≤ signed none (Digits.value digits)) = true :=
      decide_eq_true (Int.natCast_nonneg _)
    rw [signText, List.singleton_append, Sign.char, offset?, hplain, Option.filter_guard]
    simp only [Option.guard, hpos, Bool.and_true]
    rfl
  | some .minus => exact hread

theorem factor?_text (sign : Option Sign) (digits : Option Digits)
    (offset : Option (Sign × Digits)) :
    factor? (signText sign ++ digitsText digits) =
      Option.guard (Integer.InRange ·) (Argument.multiple sign digits offset).factor := by
  match sign, digits with
  | none, none => rfl
  | some .plus, none => rfl
  | some .minus, none => rfl
  | sign, some digits =>
    have hdigit : ∃ d ∈ signText sign ++ digitsText (some digits), d.isDigit = true := by
      obtain ⟨d, hd⟩ := List.exists_mem_of_ne_nil _ digits.2.1
      exact ⟨d, List.mem_append_right _ hd, digits.2.2 d hd⟩
    rw [factor?]
    · exact read?_signText sign digits
    · exact ne_of_digit hdigit (by simp)
    · exact ne_of_digit hdigit (by simp)
    · exact ne_of_digit hdigit (by simp)

theorem offset?_text (sign : Option Sign) (digits : Option Digits)
    (offset : Option (Sign × Digits)) :
    (if offsetText offset = [] then some 0 else offset? (offsetText offset)) =
      Option.guard (Integer.InRange ·) (Argument.multiple sign digits offset).offset := by
  match offset with
  | none => rfl
  | some (sign, digits) => exact offset?_signText (some sign) digits

theorem ne_n_of_isFigure (hs : ∀ c ∈ s, isFigure c = true) : ∀ c ∈ s, (c != 'n') = true := by
  intro c hc
  rw [bne_iff_ne]
  rintro rfl
  exact absurd (hs 'n' hc) (by decide)

theorem compact?_integer (hs : ∀ c ∈ s, isFigure c = true) (hne : s ≠ []) :
    compact? s = (offset? s).map (0, ·) := by
  have hword : ∀ c t, isFigure c = false → s ≠ c :: t := by
    rintro c t hc rfl
    exact Bool.false_ne_true (hc.symm.trans (hs c List.mem_cons_self))
  have hdrop : s.dropWhile (· != 'n') = [] := List.dropWhile_eq_nil_iff.2 (ne_n_of_isFigure hs)
  rw [compact?, if_neg (hword 'o' _ rfl), if_neg (hword 'e' _ rfl), if_neg hne, hdrop]

theorem compact?_multiple (hs : ∀ c ∈ s, isFigure c = true) (t : List Char) :
    compact? (s ++ 'n' :: t) = (factor? s).bind fun factor =>
      (if t = [] then some 0 else offset? t).map (factor, ·) := by
  have hn := ne_n_of_isFigure hs
  have hword : ∀ c u, isFigure c = false → c ≠ 'n' → s ++ 'n' :: t ≠ c :: u := by
    intro c u hc hcn h
    cases s with
    | nil => exact hcn (List.cons.inj h).1.symm
    | cons d s =>
      obtain rfl := (List.cons.inj h).1
      exact Bool.false_ne_true (hc.symm.trans (hs d List.mem_cons_self))
  have htake : (s ++ 'n' :: t).takeWhile (· != 'n') = s := by
    rw [List.takeWhile_append_of_pos hn]
    simp
  have hdrop : (s ++ 'n' :: t).dropWhile (· != 'n') = 'n' :: t := by
    rw [List.dropWhile_append_of_pos hn]
    simp
  rw [compact?, if_neg (hword 'o' _ rfl (by decide)), if_neg (hword 'e' _ rfl (by decide)),
    if_neg (by simp), hdrop, htake]
  cases factor? s with
  | none => rfl
  | some factor => by_cases ht : t = [] <;> simp [ht, Option.map_eq_bind]

theorem guard_bind_guard (factor offset : Int) :
    ((Option.guard (Integer.InRange ·) factor).bind fun factor =>
      (Option.guard (Integer.InRange ·) offset).map (factor, ·)) =
      if Integer.InRange factor ∧ Integer.InRange offset then some (factor, offset) else none := by
  by_cases hf : Integer.InRange factor <;> by_cases ho : Integer.InRange offset <;>
    simp [Option.guard, hf, ho]

theorem compact?_print (w : Argument) :
    compact? w.print = if Integer.InRange w.factor ∧ Integer.InRange w.offset then
      some (w.factor, w.offset) else none := by
  rw [← guard_bind_guard]
  match w with
  | .odd => rfl
  | .even => rfl
  | .integer sign digits =>
    have hne : signText sign ++ digits.val ≠ [] := List.append_ne_nil_of_right_ne_nil _ digits.2.1
    have hfigures : ∀ c ∈ signText sign ++ digits.val, isFigure c = true := fun c =>
      isFigure_of_mem sign (some digits)
    rw [Argument.print, compact?_integer hfigures hne, offset?_signText]
    rfl
  | .multiple sign digits offset =>
    rw [Argument.print, compact?_multiple fun c => isFigure_of_mem sign digits,
      factor?_text sign digits offset, offset?_text sign digits offset]

theorem parse?_print (w : Argument) :
    parse? w.print = if Integer.InRange w.factor ∧ Integer.InRange w.offset then
      some (w.factor, w.offset) else none := by
  have hfilter : w.print.filter (!Text.isBlank ·) = w.print :=
    List.filter_eq_self.2 fun c hc => by simp [w.isBlank_of_mem_print c hc]
  rw [parse?, hfilter, compact?_print]

/-- Every argument is read with the numbers that it stands for, unless one is out of range; so all
pairs of numbers in range can be written, the least one included. -/
theorem parse?_argument :
    (∀ (w : Argument) (s : List Char), s.filter (!Text.isBlank ·) = w.print →
      parse? s = if Integer.InRange w.factor ∧ Integer.InRange w.offset then
        some (w.factor, w.offset) else none) ∧
    ∀ (factor offset : Int) (sign : Sign), Integer.InRange factor → Integer.InRange offset →
      sign.apply offset.natAbs = offset →
        parse? (Integer.print factor ++ 'n' :: sign.char :: Integer.digits offset.natAbs) =
          some (factor, offset) := by
  constructor
  · intro w s hs
    rw [parse?, hs, compact?_print]
  · intro factor offset sign hf ho hsign
    rw [← Argument.print_ofNumbers, parse?_print]
    simp [hsign, hf, ho]

theorem parse?_argument_least :
    (" +2 n -\t9223372036854775808".toList.filter (!Text.isBlank ·) =
        (Argument.multiple (some .plus) (some (.ofNat 2))
          (some (.minus, .ofNat 9223372036854775808))).print ∧
      parse? " +2 n -\t9223372036854775808".toList = some (2, -9223372036854775808)) ∧
    parse? (Integer.print (-9223372036854775808) ++ 'n' :: '-' :: Integer.digits 0) =
      some (-9223372036854775808, 0) := by
  have hfilter : " +2 n -\t9223372036854775808".toList.filter (!Text.isBlank ·) =
      (Argument.multiple (some .plus) (some (.ofNat 2))
        (some (.minus, .ofNat 9223372036854775808))).print := by decide +kernel
  have hread := parse?_argument.1 _ _ hfilter
  exact ⟨⟨hfilter, hread.trans (by decide +kernel)⟩,
    parse?_argument.2 (-9223372036854775808) 0 .minus (by decide) (by decide) rfl⟩

end NthPattern

end DocTree
