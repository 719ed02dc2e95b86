import DocTree.Attribute.Value
import DocTree.Proofs.Json.Printed

namespace DocTree

namespace JsonNumeral

variable {s : List Char} {m : Nat}

theorem le_ofDigitChars (s : List Char) (m : Nat) : m ≤ Nat.ofDigitChars 10 s m := by
  induction s generalizing m with
  | nil => exact Nat.le_refl m
  | cons c s ih =>
    rw [Nat.ofDigitChars_cons]
    exact Nat.le_trans (by omega) (ih _)

theorem gather_eq (hs : ∀ c ∈ s, c.isDigit = true)
    (hfits : Nat.ofDigitChars 10 s m < Nat.pow 2 64) :
    gather m s = (Nat.ofDigitChars 10 s m, []) := by
  induction s generalizing m with
  | nil => rfl
  | cons c s ih =>
    rw [Nat.ofDigitChars_cons] at hfits ⊢
    have hlt := Nat.lt_of_le_of_lt (le_ofDigitChars s _) hfits
    rw [gather, Integer.digit?_of_isDigit (hs c List.mem_cons_self), Option.getD_some]
    simp only [if_pos hlt]
    exact ih (fun d hd => hs d (List.mem_cons_of_mem _ hd)) hfits

theorem value?_digits {n : Int} (hfits : n.natAbs < Nat.pow 2 64) :
    value? ⟨n < 0, Integer.digits n.natAbs, [], none⟩ = some (.integer n) := by
  have hvalue : Nat.ofDigitChars 10 (Integer.digits n.natAbs) 0 = n.natAbs :=
    Nat.ofDigitChars_ten_toDigits
  have hgather := gather_eq (fun _ => Integer.isDigit_of_mem_digits) (hvalue.symm ▸ hfits)
  rw [hvalue] at hgather
  have hsign : ¬ (n < 0 ∧ n.natAbs = 0) := by omega
  have hsigned : (if n < 0 then -(n.natAbs : Int) else n.natAbs) = n := by
    split_ifs <;> omega
  rw [value?]
  simp only [hgather, and_self, if_true, decide_eq_true_eq, if_neg hsign, hsigned]

end JsonNumeral

def ValueKind.all : List ValueKind := [.bool, .int, .double, .string]

namespace Value

def ofJsonAs? : ValueKind → Json → Option Value
  | .bool, .bool b => some (bool b)
  | .int, .number l =>
    match l.value? with
    | some (.integer n) => if Integer.InRange n then some (int (.ofInt n)) else none
    | _ => none
  | .double, .number l =>
    match l.value? with
    | some (.integer n) => some (double (.ofInt n))
    | some (.real x) => some (double x)
    | none => none
  | .string, .string ps => (Json.string? ps).map string
  | _, _ => none

theorem ofJson?_eq_findSome? (j : Json) :
    ofJson? j = ValueKind.all.findSome? (ofJsonAs? · j) := by
  cases j with
  | number l =>
    rcases hl : l.value? with _ | n | x
    · simp [ofJson?, ValueKind.all, ofJsonAs?, hl]
    · by_cases hn : Integer.InRange n <;>
        simp [ofJson?, ofNumber, ValueKind.all, ofJsonAs?, hl, hn]
    · simp [ofJson?, ofNumber, ValueKind.all, ofJsonAs?, hl]
  | string ps => cases hps : Json.string? ps <;> simp [ofJson?, ValueKind.all, ofJsonAs?, hps]
  | _ => simp [ofJson?, ValueKind.all, ofJsonAs?]

def scalar? : Value → Option Json.Scalar
  | bool b => some (.bool b)
  | int n => some (.integer n.toInt)
  | double _ => none
  | string s => some (.string s)

theorem printJson_eq (v : Value) : v.printJson = v.scalar?.map (·.print) := by
  cases v <;> rfl

theorem exists_scalar? {v : Value} (hv : v.kind ≠ .double) : ∃ w, v.scalar? = some w := by
  cases v with
  | double => exact absurd rfl hv
  | _ => exact ⟨_, rfl⟩

theorem inRange_toInt (n : Int64) : Integer.InRange n.toInt :=
  ⟨n.le_toInt, Int.lt_add_one_iff.1 n.toInt_lt⟩

theorem ofJson?_of_says {v : Value} {w : Json.Scalar} {j : Json} (hw : v.scalar? = some w)
    (h : w.Says j) : ofJson? j = some v := by
  cases v with
  | bool b =>
    cases hw
    cases h
    rfl
  | int n =>
    cases hw
    cases h
    have hrange := inRange_toInt n
    have hfits : n.toInt.natAbs < Nat.pow 2 64 := by
      have : Nat.pow 2 64 = 0x10000000000000000 := rfl
      obtain ⟨hlow, hhigh⟩ := hrange
      omega
    rw [ofJson?, JsonNumeral.value?_digits hfits, Option.map_some, ofNumber, if_pos hrange,
      Int64.ofInt_toInt]
  | double x => cases hw
  | string s =>
    cases hw
    cases h with
    | string hps => rw [ofJson?, hps, Option.map_some]

/-- A truth value, an integer or a string is read back from its JSON text, as the first kind that
the document can be read as. -/
theorem parseJson?_printJson {v : Value} (hv : v.kind ≠ .double) :
    ∃ text j, v.printJson = some text ∧ Json.parse? (.ofList text) = some j ∧
      ValueKind.all.findSome? (ofJsonAs? · j) = some v ∧ parseJson? (.ofList text) = some v := by
  obtain ⟨w, hw⟩ := exists_scalar? hv
  obtain ⟨j, hsays, hparse⟩ := w.exists_parse?
  have hread := ofJson?_of_says hw hsays
  refine ⟨w.print, j, ?_, hparse, ?_, ?_⟩
  · rw [printJson_eq, hw, Option.map_some]
  · rw [← ofJson?_eq_findSome?, hread]
  · rw [parseJson?, hparse, Option.bind_some, hread]

theorem parseJson?_printJson_least :
    (kind (int (-0x8000000000000000)) ≠ .double ∧
      ∃ text j, printJson (int (-0x8000000000000000)) = some text ∧
        Json.parse? (.ofList text) = some j ∧
        ValueKind.all.findSome? (ofJsonAs? · j) = some (int (-0x8000000000000000)) ∧
        parseJson? (.ofList text) = some (int (-0x8000000000000000))) ∧
    ∃ s : String, s = "\"\\\n\x01é" ∧ (string s).kind ≠ .double ∧
      (string s).printJson = some "\"\\\"\\\\\\n\\u0001é\"".toList ∧
      ∃ text j, (string s).printJson = some text ∧ Json.parse? (.ofList text) = some j ∧
        ValueKind.all.findSome? (ofJsonAs? · j) = some (string s) ∧
        parseJson? (.ofList text) = some (string s) :=
  ⟨⟨by decide, parseJson?_printJson (by decide)⟩,
    _, rfl, by decide, by decide, parseJson?_printJson (by decide)⟩

end Value

end DocTree
