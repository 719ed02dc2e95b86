import DocTree.Json.Number
import DocTree.Json.Reader
import DocTree.Proofs.Number.Decimal
import Mathlib.Data.List.Basic
import Mathlib.Data.List.Forall2

namespace DocTree.Json

inductive Scalar
  | bool (b : Bool)
  | integer (n : Int)
  | string (s : String)

namespace Scalar

def print : Scalar → List Char
  | bool b => printBool b
  | integer n => Integer.print n
  | string s => quote s

inductive Says : Scalar → Json → Prop
  | bool : Says (bool b) (.bool b)
  | integer : Says (integer n) (.number ⟨n < 0, Integer.digits n.natAbs, [], none⟩)
  | string : string? ps = some s → Says (string s) (.string ps)

end Scalar

def printField (field : String × Scalar) : List Char := quote field.1 ++ ':' :: field.2.print

def printFields (fields : List (String × Scalar)) : List Char :=
  [','].intercalate (fields.map printField)

def SaysField (field : String × Scalar) (member : List JsonPiece × Json) : Prop :=
  string? member.1 = some field.1 ∧ field.2.Says member.2

def Ends (rest : List Char) : Prop :=
  ∀ c, rest.head? = some c → isDigit c = false ∧ c ≠ '.' ∧ c ≠ 'e' ∧ c ≠ 'E'

variable {c : Char} {s rest : List Char} {n fuel : Nat}

theorem hex?_digitChar : ∀ n < 16, hex? (Nat.digitChar n) = some n := by decide

theorem pieces?_quote (s : List Char) : pieces? ('"' :: s) = some ([], s) := by
  rw [pieces?.eq_def]
  rfl

theorem pieces?_plain (hquote : c ≠ '"') (hback : c ≠ '\\') (hcontrol : ¬ c.toNat < 0x20)
    (s : List Char) :
    pieces? (c :: s) = (pieces? s).map fun p => (.char c :: p.1, p.2) := by
  rw [pieces?.eq_def]
  simp only [if_neg hquote, if_neg hback, if_neg hcontrol]
  cases pieces? s <;> rfl

theorem pieces?_pair {e : Char} (he : unescape? e = some c) (hu : e ≠ 'u') (s : List Char) :
    pieces? ('\\' :: e :: s) = (pieces? s).map fun p => (.char c :: p.1, p.2) := by
  rw [pieces?.eq_def]
  simp only [if_neg (by decide : '\\' ≠ '"'), if_true]
  split
  next heq => exact absurd (List.cons.inj heq).1 hu
  next heq =>
    obtain ⟨rfl, rfl⟩ := List.cons.inj heq
    rw [he]
    cases pieces? s <;> rfl
  next heq => cases heq

theorem pieces?_control (hcontrol : c.toNat < 0x20) (s : List Char) :
    pieces? (controlEscape c ++ s) =
      (pieces? s).map fun p => (.unit c.toNat :: p.1, p.2) := by
  have hhigh := hex?_digitChar (c.toNat / 16) (by omega)
  have hlow := hex?_digitChar (c.toNat % 16) (Nat.mod_lt _ (by decide))
  have hzero : hex? '0' = some 0 := by decide
  have hsum : c.toNat / 16 * 16 + c.toNat % 16 = c.toNat := by omega
  simp only [controlEscape, List.cons_append, List.nil_append]
  rw [pieces?.eq_def]
  simp only [if_neg (by decide : '\\' ≠ '"'), if_true, hzero, hhigh, hlow, Option.bind_eq_bind,
    Option.bind_some, Nat.zero_mul, Nat.zero_add, hsum]
  cases pieces? s <;> rfl

theorem text?_unit (hcontrol : c.toNat < 0x20) (ps : List JsonPiece) :
    text? (.unit c.toNat :: ps) = (text? ps).map (c :: ·) := by
  rw [text?.eq_def]
  simp only [if_neg (by omega : ¬ (0xd800 ≤ c.toNat ∧ c.toNat < 0xdc00)),
    if_neg (by omega : ¬ (0xdc00 ≤ c.toNat ∧ c.toNat < 0xe000)), Char.ofNat_toNat]

theorem exists_piece (c : Char) : ∃ p, (∀ ps, text? (p :: ps) = (text? ps).map (c :: ·)) ∧
    ∀ s, pieces? (escapeChar c ++ s) = (pieces? s).map fun q => (p :: q.1, q.2) := by
  have hpair : ∀ {e d : Char}, unescape? e = some d → e ≠ 'u' → ∀ s, pieces? (['\\', e] ++ s) =
      (pieces? s).map fun q => (.char d :: q.1, q.2) := fun he hu s => pieces?_pair he hu s
  simp only [escapeChar, Bool.or_eq_true, decide_eq_true_eq]
  split_ifs with hself hb hf hn hr ht hcontrol
  · exact ⟨.char c, fun _ => rfl, hpair (by rcases hself with rfl | rfl <;> rfl)
      (by rcases hself with rfl | rfl <;> decide)⟩
  · exact ⟨.char c, fun _ => rfl, hpair (hb ▸ by decide) (by decide)⟩
  · exact ⟨.char c, fun _ => rfl, hpair (hf ▸ by decide) (by decide)⟩
  · exact ⟨.char c, fun _ => rfl, hpair (hn ▸ by decide) (by decide)⟩
  · exact ⟨.char c, fun _ => rfl, hpair (hr ▸ by decide) (by decide)⟩
  · exact ⟨.char c, fun _ => rfl, hpair (ht ▸ by decide) (by decide)⟩
  · exact ⟨.unit c.toNat, text?_unit hcontrol, pieces?_control hcontrol⟩
  · rw [not_or] at hself
    exact ⟨.char c, fun _ => rfl, pieces?_plain hself.1 hself.2 hcontrol⟩

theorem exists_pieces? (s : List Char) : ∃ ps, text? ps = some s ∧
    ∀ rest, pieces? (s.flatMap escapeChar ++ '"' :: rest) = some (ps, rest) := by
  induction s with
  | nil => exact ⟨[], rfl, pieces?_quote⟩
  | cons c s ih =>
    obtain ⟨p, htext, hread⟩ := exists_piece c
    obtain ⟨ps, hps, hrest⟩ := ih
    refine ⟨p :: ps, by rw [htext, hps, Option.map_some], fun rest => ?_⟩
    rw [List.flatMap_cons, List.append_assoc, hread, hrest, Option.map_some]

theorem exists_string? (s : String) : ∃ ps, string? ps = some s ∧
    ∀ rest, ∃ t, quote s ++ rest = '"' :: t ∧ pieces? t = some (ps, rest) := by
  obtain ⟨ps, hps, hread⟩ := exists_pieces? s.toList
  refine ⟨ps, by rw [string?, hps, Option.map_some, String.ofList_toList], fun rest => ?_⟩
  exact ⟨s.toList.flatMap escapeChar ++ '"' :: rest, by simp [quote], hread rest⟩

theorem head?_digits (n : Nat) :
    (Integer.digits n).head? = some '0' → Integer.digits n = ['0'] := by
  induction n using Nat.strongRecOn with
  | ind n ih =>
    rw [Integer.digits, Nat.toDigits_eq_if (by decide)]
    split_ifs with hn
    · intro h
      rw [List.head?_singleton, Option.some.injEq] at h
      rw [h]
    · intro h
      rw [List.head?_append_of_ne_nil _ Nat.toDigits_ne_nil] at h
      have hzero := congrArg (Nat.ofDigitChars 10 · 0) (ih (n / 10) (by omega) h)
      simp only [Integer.digits, Nat.ofDigitChars_ten_toDigits] at hzero
      have : Nat.ofDigitChars 10 ['0'] 0 = 0 := by decide
      omega

theorem takeWhile_digits (h : Ends rest) (n : Nat) :
    (Integer.digits n ++ rest).takeWhile isDigit = Integer.digits n ∧
      (Integer.digits n ++ rest).dropWhile isDigit = rest := by
  have hdigits : ∀ c ∈ Integer.digits n, isDigit c = true := fun c hc =>
    Integer.isDigit_of_mem_digits hc
  have hrest : rest.takeWhile isDigit = [] ∧ rest.dropWhile isDigit = rest := by
    cases rest with
    | nil => exact ⟨rfl, rfl⟩
    | cons c rest => simp [(h c rfl).1]
  rw [List.takeWhile_append_of_pos hdigits, List.dropWhile_append_of_pos hdigits, hrest.1, hrest.2,
    List.append_nil]
  exact ⟨rfl, rfl⟩

theorem fraction?_of_ends (h : Ends rest) : fraction? rest = some ([], rest) := by
  rw [fraction?.eq_def]
  split
  next => exact absurd rfl (h '.' rfl).2.1
  next => rfl

theorem exponent?_of_ends (h : Ends rest) : exponent? rest = some (none, rest) := by
  cases rest with
  | nil => rfl
  | cons c rest =>
    obtain ⟨-, -, he, hE⟩ := h c rfl
    rw [exponent?.eq_def]
    simp only [he, hE, or_self, if_false]

theorem numeral?_digits (h : Ends rest) (negative : Bool) (n : Nat) :
    numeral? negative (Integer.digits n ++ rest) =
      some (⟨negative, Integer.digits n, [], none⟩, rest) := by
  obtain ⟨htake, hdrop⟩ := takeWhile_digits h n
  have hzero : ¬ ((Integer.digits n).head? = some '0' ∧ Integer.digits n ≠ ['0']) := fun hd =>
    hd.2 (head?_digits n hd.1)
  rw [numeral?, digits?, htake, if_neg (Integer.digits_ne_nil n), hdrop]
  simp only [Option.bind_eq_bind, Option.bind_some, if_neg hzero, fraction?_of_ends h,
    exponent?_of_ends h]
  rfl

theorem value?_digits (h : Ends rest) (n fuel : Nat) :
    value? (fuel + 1) (Integer.digits n ++ rest) =
      some (.number ⟨false, Integer.digits n, [], none⟩, rest) := by
  have hread := numeral?_digits h false n
  obtain ⟨c, s, hs⟩ := List.exists_cons_of_ne_nil (Integer.digits_ne_nil n)
  have hc : c.isDigit = true := Integer.isDigit_of_mem_digits (n := n) (by simp [hs])
  have hne : ∀ d : Char, d.isDigit = false → c ≠ d := by
    rintro d hd rfl
    exact Bool.false_ne_true (hd.symm.trans hc)
  rw [hs] at hread ⊢
  rw [List.cons_append] at hread ⊢
  rw [value?, if_neg (hne _ (by decide)), if_neg (hne _ (by decide)), if_neg (hne _ (by decide)),
    if_neg (hne _ (by decide)), if_neg (hne _ (by decide)), if_neg (hne _ (by decide)),
    if_neg (hne _ (by decide)), hread]
  rfl

theorem value?_minus (h : Ends rest) (n fuel : Nat) :
    value? (fuel + 1) ('-' :: Integer.digits n ++ rest) =
      some (.number ⟨true, Integer.digits n, [], none⟩, rest) := by
  rw [List.cons_append, value?, if_neg (by decide), if_neg (by decide), if_neg (by decide),
    if_neg (by decide), if_neg (by decide), if_neg (by decide), if_pos rfl, numeral?_digits h]
  rfl

theorem value?_bool (b : Bool) (rest : List Char) (fuel : Nat) :
    value? (fuel + 1) (printBool b ++ rest) = some (.bool b, rest) := by
  cases b <;> rfl

theorem Scalar.exists_value? (w : Scalar) : ∃ j, w.Says j ∧
    ∀ fuel rest, Ends rest → value? (fuel + 1) (w.print ++ rest) = some (j, rest) := by
  cases w with
  | bool b => exact ⟨.bool b, .bool, fun fuel rest _ => value?_bool b rest fuel⟩
  | integer n =>
    refine ⟨_, .integer, fun fuel rest h => ?_⟩
    rw [print, Integer.print]
    split_ifs with hn
    · rw [value?_minus h, decide_eq_true hn]
    · rw [value?_digits h, decide_eq_false hn]
  | string s =>
    obtain ⟨ps, hps, hread⟩ := exists_string? s
    refine ⟨.string ps, .string hps, fun fuel rest _ => ?_⟩
    obtain ⟨t, ht, hpieces⟩ := hread rest
    rw [print, ht, value?, if_pos rfl, hpieces, Option.map_some]

theorem ends_cons (hc : c = ',' ∨ c = '\x7d') (s : List Char) : Ends (c :: s) := by
  rintro _ ⟨⟩
  rcases hc with rfl | rfl <;> decide

theorem skip_cons (hc : isSpace c = false) (s : List Char) : skip (c :: s) = c :: s := by
  simp [skip, hc]

theorem Scalar.exists_print (w : Scalar) : ∃ c s, w.print = c :: s ∧ isSpace c = false := by
  cases w with
  | bool b => cases b <;> exact ⟨_, _, rfl, by decide⟩
  | integer n =>
    rw [print, Integer.print]
    split_ifs
    · exact ⟨_, _, rfl, by decide⟩
    · obtain ⟨c, s, hs⟩ := List.exists_cons_of_ne_nil (Integer.digits_ne_nil n.natAbs)
      have hc : c.isDigit = true := Integer.isDigit_of_mem_digits (n := n.natAbs) (by simp [hs])
      refine ⟨c, s, hs, Bool.eq_false_iff.2 fun hspace => ?_⟩
      simp only [isSpace, Bool.or_eq_true, beq_iff_eq] at hspace
      rcases hspace with ((rfl | rfl) | rfl) | rfl <;> exact absurd hc (by decide)
  | string s => exact ⟨_, _, rfl, by decide⟩

theorem skip_print (w : Scalar) (rest : List Char) : skip (w.print ++ rest) = w.print ++ rest := by
  obtain ⟨c, s, hs, hc⟩ := w.exists_print
  rw [hs, List.cons_append, skip_cons hc]

theorem printFields_singleton (field : String × Scalar) :
    printFields [field] = printField field := by
  simp [printFields]

theorem printFields_cons_cons (field next : String × Scalar) (more : List (String × Scalar)) :
    printFields (field :: next :: more) =
      printField field ++ ',' :: printFields (next :: more) := by
  simp [printFields]

section Field

variable {members : List (List JsonPiece × Json)} {key t u : List Char} {ps : List JsonPiece}
  {j : Json}

theorem fields?_last (hkey : pieces? t = some (ps, ':' :: u)) (hskip : skip u = u)
    (hvalue : value? fuel u = some (j, '\x7d' :: rest)) :
    fields? (fuel + 1) ('"' :: t) = some ([(ps, j)], rest) := by
  rw [fields?]
  simp only [hkey, Option.bind_eq_bind, Option.bind_some,
    skip_cons (by decide : isSpace ':' = false), hskip, hvalue,
    skip_cons (by decide : isSpace '\x7d' = false)]
  rfl

theorem fields?_comma (hkey : pieces? t = some (ps, ':' :: u)) (hskip : skip u = u)
    (hvalue : value? fuel u = some (j, ',' :: s)) (hs : skip s = s)
    (hmore : fields? fuel s = some (members, rest)) :
    fields? (fuel + 1) ('"' :: t) = some ((ps, j) :: members, rest) := by
  rw [fields?]
  simp only [hkey, Option.bind_eq_bind, Option.bind_some,
    skip_cons (by decide : isSpace ':' = false), hskip, hvalue,
    skip_cons (by decide : isSpace ',' = false), hs, hmore]
  rfl

theorem exists_member (field : String × Scalar) : ∃ ps j, SaysField field (ps, j) ∧
    ∀ rest, ∃ t, printField field ++ rest = '"' :: t ∧
      pieces? t = some (ps, ':' :: (field.2.print ++ rest)) ∧
      (Ends rest → ∀ fuel, value? (fuel + 1) (field.2.print ++ rest) = some (j, rest)) := by
  obtain ⟨ps, hps, hkey⟩ := exists_string? field.1
  obtain ⟨j, hj, hvalue⟩ := field.2.exists_value?
  refine ⟨ps, j, ⟨hps, hj⟩, fun rest => ?_⟩
  obtain ⟨t, ht, hpieces⟩ := hkey (':' :: (field.2.print ++ rest))
  exact ⟨t, by simp [printField, ← ht], hpieces, fun h fuel => hvalue fuel rest h⟩

end Field

theorem exists_fields? {fields : List (String × Scalar)} (hne : fields ≠ []) :
    ∃ members, List.Forall₂ SaysField fields members ∧ ∀ fuel rest, fields.length < fuel →
      ∃ t, printFields fields ++ '\x7d' :: rest = '"' :: t ∧
        fields? fuel ('"' :: t) = some (members, rest) := by
  induction fields with
  | nil => exact absurd rfl hne
  | cons field more ih =>
    obtain ⟨ps, j, hsays, hread⟩ := exists_member field
    cases more with
    | nil =>
      refine ⟨[(ps, j)], .cons hsays .nil, fun fuel rest hfuel => ?_⟩
      obtain ⟨k, rfl⟩ : ∃ k, fuel = k + 2 := Nat.exists_eq_add_of_le' hfuel
      obtain ⟨t, ht, hkey, hvalue⟩ := hread ('\x7d' :: rest)
      refine ⟨t, by rw [← ht, printFields_singleton], ?_⟩
      exact fields?_last hkey (skip_print _ _) (hvalue (ends_cons (.inr rfl) rest) k)
    | cons next more =>
      obtain ⟨members, hmembers, hrest⟩ := ih (List.cons_ne_nil _ _)
      refine ⟨(ps, j) :: members, .cons hsays hmembers, fun fuel rest hfuel => ?_⟩
      obtain ⟨k, rfl⟩ : ∃ k, fuel = k + 2 :=
        Nat.exists_eq_add_of_le' (Nat.lt_of_le_of_lt (Nat.le_add_left 1 _) hfuel)
      obtain ⟨u, hu, hmore⟩ := hrest (k + 1) rest (Nat.lt_of_succ_lt_succ hfuel)
      obtain ⟨t, ht, hkey, hvalue⟩ := hread (',' :: '"' :: u)
      refine ⟨t, ?_, ?_⟩
      · rw [← ht, ← hu, printFields_cons_cons, List.append_assoc, List.cons_append]
      · exact fields?_comma hkey (skip_print _ _) (hvalue (ends_cons (.inl rfl) _) k)
          (skip_cons (by decide) u) hmore

theorem value?_object {members : List (List JsonPiece × Json)}
    (hfields : fields? fuel ('"' :: s) = some (members, rest)) :
    value? (fuel + 1) ('\x7b' :: '"' :: s) = some (.object members, rest) := by
  rw [value?, if_neg (by decide), if_pos rfl, skip_cons (by decide)]
  split
  next heq => cases heq
  next => rw [hfields, Option.map_some]

theorem Scalar.exists_parse? (w : Scalar) : ∃ j, w.Says j ∧ parse? (.ofList w.print) = some j := by
  obtain ⟨j, hj, hvalue⟩ := w.exists_value?
  have hread := hvalue (2 * w.print.length + 1) [] nofun
  have hskip := skip_print w []
  rw [List.append_nil] at hread hskip
  refine ⟨j, hj, ?_⟩
  rw [parse?, String.toList_ofList, hskip]
  simp only [hread, Option.bind_eq_bind, Option.bind_some]
  rfl

theorem length_le_printFields (fields : List (String × Scalar)) :
    fields.length ≤ (printFields fields).length := by
  induction fields with
  | nil => exact Nat.le_refl 0
  | cons field more ih =>
    have hfield : 0 < (printField field).length := by simp [printField, quote]
    cases more with
    | nil => rwa [printFields_singleton]
    | cons next more =>
      rw [printFields_cons_cons, List.length_append, List.length_cons, List.length_cons (a := ',')]
      omega

theorem exists_parse?_object {fields : List (String × Scalar)} (hne : fields ≠ []) :
    ∃ members, List.Forall₂ SaysField fields members ∧
      parse? (.ofList ('\x7b' :: printFields fields ++ ['\x7d'])) = some (.object members) := by
  obtain ⟨members, hmembers, hread⟩ := exists_fields? hne
  refine ⟨members, hmembers, ?_⟩
  have hlength := length_le_printFields fields
  rw [parse?, String.toList_ofList, List.cons_append, skip_cons (by decide)]
  obtain ⟨t, ht, hfields⟩ := hread
    (2 * ('\x7b' :: (printFields fields ++ ['\x7d'])).length + 1) []
    (by simp only [List.length_cons, List.length_append]; omega)
  rw [ht] at hfields ⊢
  rw [value?_object hfields]
  rfl

end DocTree.Json
