import DocTree.Selector.Nth
import Mathlib.Algebra.Group.Nat.Defs

/-! Positions by remainder and positions by counting.  A pattern `an+b` counts `b`, `a+b`, `2a+b` and
so on; the rule by remainder selects the same positions only where offset and factor fit. -/

namespace DocTree.NthPattern

/-- The place is the offset after some number of steps of the factor. -/
def Counts (p : NthPattern) (i : Int) : Prop := ∃ n : Nat, i = p.factor * n + p.offset

def Fits (p : NthPattern) : Prop :=
  p.factor = 0 ∨ (0 < p.factor ∧ 0 ≤ p.offset ∧ p.offset < p.factor) ∨ p.factor = -1 ∨
    (p.factor < -1 ∧ p.offset ≤ 1)

instance (p : NthPattern) : Decidable p.Fits := inferInstanceAs (Decidable (_ ∨ _))

variable {p : NthPattern} {i : Int}

theorem matchesIndex_zero (hf : p.factor = 0) : p.matchesIndex i = true ↔ i = p.offset := by
  simp [matchesIndex, hf]

theorem matchesIndex_pos (hf : 0 < p.factor) (hi : 1 ≤ i) :
    p.matchesIndex i = true ↔ i % p.factor = p.offset := by
  have htmod : i.tmod p.factor = i % p.factor := Int.tmod_eq_emod_of_nonneg (by omega)
  simp [matchesIndex, hf, Int.ne_of_gt hf, htmod]

theorem matchesIndex_neg (hf : p.factor < 0) : p.matchesIndex i = true ↔ i ≤ p.offset := by
  simp [matchesIndex, Int.ne_of_lt hf, Int.not_lt.2 (Int.le_of_lt hf)]

theorem counts_zero (hf : p.factor = 0) : p.Counts i ↔ i = p.offset := by
  simp [Counts, hf]

theorem counts_offset (p : NthPattern) : p.Counts p.offset := ⟨0, by simp⟩

theorem counts_pos (hf : 0 < p.factor) (ho : 0 ≤ p.offset) (hlt : p.offset < p.factor)
    (hi : 1 ≤ i) : p.Counts i ↔ i % p.factor = p.offset := by
  constructor
  · rintro ⟨n, rfl⟩
    rw [Int.mul_add_emod_self_left, Int.emod_eq_of_lt ho hlt]
  · intro hmod
    have hquot : 0 ≤ i / p.factor := Int.ediv_nonneg (by omega) (Int.le_of_lt hf)
    refine ⟨(i / p.factor).toNat, ?_⟩
    rw [Int.toNat_of_nonneg hquot, ← hmod, Int.mul_ediv_add_emod]

theorem exists_counts (hf : 0 < p.factor) :
    ∃ i, 1 ≤ i ∧ (i = p.offset ∨ i ≤ p.factor) ∧ p.Counts i := by
  rcases Int.lt_or_le 0 p.offset with ho | ho
  · exact ⟨p.offset, ho, .inl rfl, p.counts_offset⟩
  have hquot : 0 ≤ -p.offset / p.factor := Int.ediv_nonneg (by omega) (Int.le_of_lt hf)
  have hrest := Int.mul_ediv_add_emod (-p.offset) p.factor
  have hnonneg := Int.emod_nonneg (-p.offset) (Int.ne_of_gt hf)
  have hlt := Int.emod_lt_of_pos (-p.offset) hf
  refine ⟨p.factor - -p.offset % p.factor, by omega, .inr (by omega),
    (-p.offset / p.factor).toNat + 1, ?_⟩
  rw [Int.natCast_add, Int.toNat_of_nonneg hquot, Int.mul_add]
  omega

theorem counts_neg_one (hf : p.factor = -1) : p.Counts i ↔ i ≤ p.offset := by
  constructor
  · rintro ⟨n, rfl⟩
    rw [hf]
    omega
  · intro hi
    refine ⟨(p.offset - i).toNat, ?_⟩
    rw [hf]
    omega

theorem Counts.le_offset (h : p.Counts i) (hf : p.factor < 0) : i ≤ p.offset := by
  obtain ⟨n, rfl⟩ := h
  have hstep : p.factor * n ≤ 0 :=
    Int.mul_nonpos_of_nonpos_of_nonneg (Int.le_of_lt hf) (Int.natCast_nonneg n)
  omega

theorem not_counts_pred (hf : p.factor < -1) : ¬ p.Counts (p.offset - 1) := by
  rintro ⟨n, hn⟩
  rcases n with _ | n
  · omega
  · have hstep : p.factor * (n : Int) ≤ 0 :=
      Int.mul_nonpos_of_nonpos_of_nonneg (by omega) (Int.natCast_nonneg n)
    rw [Int.natCast_add, Int.mul_add] at hn
    omega

theorem matchesIndex_iff_counts (h : p.Fits) (hi : 1 ≤ i) :
    p.matchesIndex i = true ↔ p.Counts i := by
  rcases h with hf | ⟨hf, ho, hlt⟩ | hf | ⟨hf, ho⟩
  · rw [matchesIndex_zero hf, counts_zero hf]
  · rw [matchesIndex_pos hf hi, counts_pos hf ho hlt hi]
  · rw [matchesIndex_neg (by omega), counts_neg_one hf]
  · have hneg : p.factor < 0 := by omega
    rw [matchesIndex_neg hneg]
    constructor
    · intro hle
      obtain rfl : i = p.offset := by omega
      exact p.counts_offset
    · exact fun hcounts => hcounts.le_offset hneg

/-- The rule selects the places that are counted, among all that can be asked for, exactly if factor
and offset fit. -/
theorem matchesIndex_counts_iff (p : NthPattern) (hf : Integer.InRange p.factor)
    (ho : Integer.InRange p.offset) :
    (∀ i, 1 ≤ i → Integer.InRange i → (p.matchesIndex i = true ↔ p.Counts i)) ↔ p.Fits := by
  have hf' := hf.2
  have ho' := ho.2
  constructor
  · intro hall
    rcases Int.lt_trichotomy p.factor 0 with hneg | hzero | hpos
    · by_cases hone : p.factor = -1
      · exact .inr (.inr (.inl hone))
      have hfactor : p.factor < -1 := by omega
      refine .inr (.inr (.inr ⟨hfactor, Int.not_lt.1 fun hoffset => ?_⟩))
      have hrange : Integer.InRange (p.offset - 1) := ⟨by omega, by omega⟩
      refine not_counts_pred hfactor ((hall _ (by omega) hrange).1 ?_)
      exact (matchesIndex_neg hneg).2 (by omega)
    · exact .inl hzero
    · obtain ⟨i, hi, hle, hcounts⟩ := exists_counts hpos
      have hrange : Integer.InRange i := ⟨by omega, by omega⟩
      have hmod := (matchesIndex_pos hpos hi).1 ((hall i hi hrange).2 hcounts)
      have hnonneg := Int.emod_nonneg i (Int.ne_of_gt hpos)
      have hlt := Int.emod_lt_of_pos i hpos
      exact .inr (.inl ⟨hpos, by omega, by omega⟩)
  · exact fun hfits i hi _ => matchesIndex_iff_counts hfits hi

theorem matchesIndex_counts_iff_least :
    (Integer.InRange 2 ∧ Integer.InRange (-0x8000000000000000) ∧
      ((∀ i, 1 ≤ i → Integer.InRange i →
        (matchesIndex ⟨2, -0x8000000000000000, false⟩ i = true ↔
          Counts ⟨2, -0x8000000000000000, false⟩ i)) ↔ Fits ⟨2, -0x8000000000000000, false⟩)) ∧
    ((∀ i, 1 ≤ i → Integer.InRange i →
        (matchesIndex ⟨-0x8000000000000000, 1, true⟩ i = true ↔
          Counts ⟨-0x8000000000000000, 1, true⟩ i)) ↔ Fits ⟨-0x8000000000000000, 1, true⟩) ∧
    ¬ Fits ⟨2, -0x8000000000000000, false⟩ ∧ Fits ⟨-0x8000000000000000, 1, true⟩ :=
  ⟨⟨by decide, by decide, matchesIndex_counts_iff _ (by decide) (by decide)⟩,
    matchesIndex_counts_iff _ (by decide) (by decide), by decide, by decide⟩

end DocTree.NthPattern
