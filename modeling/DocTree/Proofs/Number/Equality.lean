import DocTree.Number.Binary64
import Mathlib.Order.Monotone.Basic

namespace DocTree.Binary64

def steps (m : Nat) : Nat :=
  if m < Nat.pow 2 52 then m
  else (m % Nat.pow 2 52 + Nat.pow 2 52) * Nat.pow 2 (m / Nat.pow 2 52 - 1)

/-- The value of a finite number, in multiples of the least positive one. -/
def multiple (x : Binary64) : Int :=
  (if x.negative then -1 else 1) * (x.significand * Nat.pow 2 (x.exponent + 1074).toNat : Nat)

inductive Equals : Binary64 → Binary64 → Prop
  | finite : x.magnitude < infinity → y.magnitude < infinity → x.multiple = y.multiple → Equals x y
  | infinite : x.isInfinite = true → y.isInfinite = true → x.negative = y.negative → Equals x y

variable {x y z : Binary64} {m k : Nat}

theorem steps_lt (m : Nat) : steps m < Nat.pow 2 52 * Nat.pow 2 (m / Nat.pow 2 52) := by
  rw [steps]
  split
  next hm =>
    rw [Nat.div_eq_of_lt hm]
    exact hm
  next hm =>
    have hpos : 0 < Nat.pow 2 52 := by decide
    obtain ⟨e, he⟩ := Nat.exists_eq_succ_of_ne_zero (Nat.div_pos (Nat.le_of_not_lt hm) hpos).ne'
    have hsum : m % Nat.pow 2 52 + Nat.pow 2 52 < Nat.pow 2 52 * 2 := by
      have := Nat.mod_lt m hpos
      omega
    have htwo : Nat.pow 2 (e + 1) = 2 * Nat.pow 2 e := Nat.pow_succ'
    rw [he, Nat.succ_sub_one, htwo, ← Nat.mul_assoc]
    exact Nat.mul_lt_mul_of_pos_right hsum (Nat.two_pow_pos e)

theorem le_steps (hm : Nat.pow 2 52 ≤ m) :
    Nat.pow 2 52 * Nat.pow 2 (m / Nat.pow 2 52 - 1) ≤ steps m := by
  rw [steps, if_neg (Nat.not_lt.2 hm)]
  exact Nat.mul_le_mul_right _ (Nat.le_add_left ..)

theorem steps_strictMono : StrictMono steps := by
  intro m k hmk
  have hpos : 0 < Nat.pow 2 52 := by decide
  rcases Nat.lt_or_eq_of_le (Nat.div_le_div_right (c := Nat.pow 2 52) hmk.le) with hlt | heq
  · have hk : Nat.pow 2 52 ≤ k := (Nat.div_pos_iff.1 (Nat.zero_lt_of_lt hlt)).2
    calc steps m < Nat.pow 2 52 * Nat.pow 2 (m / Nat.pow 2 52) := steps_lt m
      _ ≤ Nat.pow 2 52 * Nat.pow 2 (k / Nat.pow 2 52 - 1) :=
        Nat.mul_le_mul_left _ (Nat.pow_le_pow_right Nat.two_pos (Nat.le_sub_one_of_lt hlt))
      _ ≤ steps k := le_steps hk
  · have hm := Nat.div_add_mod m (Nat.pow 2 52)
    have hk := Nat.div_add_mod k (Nat.pow 2 52)
    rw [heq] at hm
    have hrest : m % Nat.pow 2 52 < k % Nat.pow 2 52 := by omega
    have hiff : m < Nat.pow 2 52 ↔ k < Nat.pow 2 52 := by
      rw [← Nat.div_eq_zero_iff_lt hpos, ← Nat.div_eq_zero_iff_lt hpos, heq]
    rw [steps, steps, heq]
    by_cases hlt : k < Nat.pow 2 52
    · rwa [if_pos hlt, if_pos (hiff.2 hlt)]
    · rw [if_neg hlt, if_neg (mt hiff.1 hlt)]
      exact Nat.mul_lt_mul_of_pos_right (Nat.add_lt_add_right hrest _) (Nat.two_pow_pos _)

theorem steps_zero : steps 0 = 0 := rfl

theorem multiple_eq (x : Binary64) :
    x.multiple = (if x.negative then -1 else 1) * (steps x.magnitude : Int) := by
  have hexponent : (x.exponent + 1074).toNat = max (x.magnitude / Nat.pow 2 52) 1 - 1 := by
    rw [exponent]
    omega
  have hsteps : x.significand * Nat.pow 2 (x.exponent + 1074).toNat = steps x.magnitude := by
    rw [hexponent, significand, steps]
    split
    next hm => simp [Nat.div_eq_of_lt hm]
    next hm => rw [Nat.max_eq_left (Nat.div_pos (Nat.le_of_not_lt hm) (by decide))]
  rw [multiple, hsteps]

theorem ext_magnitude (hs : x.negative = y.negative) (hm : x.magnitude = y.magnitude) : x = y := by
  have hx := x.bits.toNat_lt
  have hy := y.bits.toNat_lt
  have htop : Nat.pow 2 63 = 2 ^ 63 := rfl
  have hbits : x.bits.toNat = y.bits.toNat := by
    simp only [negative, magnitude, decide_eq_decide, htop] at hs hm
    omega
  cases x
  cases y
  exact congrArg mk (UInt64.toNat_inj.1 hbits)

theorem signed_eq_iff (s t : Bool) (i j : Nat) :
    (if s then -1 else 1) * (i : Int) = (if t then -1 else 1) * (j : Int) ↔
      s = t ∧ i = j ∨ i = 0 ∧ j = 0 := by
  cases s <;> cases t <;>
    simp only [if_true, if_false, Bool.false_eq_true, Bool.true_eq_false, true_and, false_and,
      false_or] <;> omega

theorem multiple_eq_iff :
    x.multiple = y.multiple ↔ x = y ∨ x.isZero = true ∧ y.isZero = true := by
  have hzero : ∀ {x : Binary64}, x.isZero = true ↔ steps x.magnitude = 0 := by
    intro x
    rw [isZero, beq_iff_eq, ← steps_strictMono.injective.eq_iff, steps_zero]
  have hself : x = y ↔ x.negative = y.negative ∧ steps x.magnitude = steps y.magnitude := by
    rw [steps_strictMono.injective.eq_iff]
    exact ⟨fun h => ⟨congrArg _ h, congrArg _ h⟩, fun h => ext_magnitude h.1 h.2⟩
  rw [multiple_eq, multiple_eq, signed_eq_iff, hzero, hzero, hself]

theorem isNaN_eq_false_iff : x.isNaN = false ↔ x.magnitude < infinity ∨ x.isInfinite = true := by
  rw [isNaN, isInfinite, decide_eq_false_iff_not, Nat.not_lt, beq_iff_eq, Nat.le_iff_lt_or_eq]

theorem agrees_iff : x.agrees y = true ↔ x.Equals y := by
  have hbits : x.bits = y.bits ↔ x = y := by
    cases x
    cases y
    simp
  simp only [agrees, Bool.and_eq_true, Bool.or_eq_true, Bool.not_eq_true', beq_iff_eq, hbits,
    isNaN_eq_false_iff]
  constructor
  · rintro ⟨⟨hx, -⟩, rfl | hzero⟩
    · exact hx.elim (fun hx => .finite hx hx rfl) fun hx => .infinite hx hx rfl
    · have hlt : ∀ {x : Binary64}, x.isZero = true → x.magnitude < infinity := fun hx =>
        Nat.lt_of_le_of_lt (beq_iff_eq.1 hx).le (by decide)
      exact .finite (hlt hzero.1) (hlt hzero.2) (multiple_eq_iff.2 (.inr hzero))
  · rintro (⟨hx, hy, h⟩ | ⟨hx, hy, hs⟩)
    · exact ⟨⟨.inl hx, .inl hy⟩, multiple_eq_iff.1 h⟩
    · have hm : x.magnitude = y.magnitude := (beq_iff_eq.1 hx).trans (beq_iff_eq.1 hy).symm
      exact ⟨⟨.inr hx, .inr hy⟩, .inl (ext_magnitude hs hm)⟩

theorem Equals.symm (h : x.Equals y) : y.Equals x := by
  cases h with
  | finite hx hy h => exact .finite hy hx h.symm
  | infinite hx hy h => exact .infinite hy hx h.symm

theorem Equals.trans (h : x.Equals y) (hyz : y.Equals z) : x.Equals z := by
  cases h with
  | finite hx hy h =>
    cases hyz with
    | finite _ hz hyz => exact .finite hx hz (h.trans hyz)
    | infinite hy' => exact absurd (beq_iff_eq.1 hy') hy.ne
  | infinite hx hy h =>
    cases hyz with
    | finite hy' => exact absurd (beq_iff_eq.1 hy) hy'.ne
    | infinite _ hz hyz => exact .infinite hx hz (h.trans hyz)

end DocTree.Binary64
