import DocTree.Proofs.Outcome
import Mathlib.Data.List.TakeWhile

namespace DocTree.Text

inductive Fault
  | slice (start stop : Nat)
  | byte (place : Nat)
  deriving DecidableEq, Repr

def byteLength : List Char → Nat
  | [] => 0
  | c :: s => c.utf8Size + byteLength s

/-- What stands before place `i`, and from there on; none past the end and inside a character. -/
def splitAt? : Nat → List Char → Option (List Char × List Char)
  | 0, s => some ([], s)
  | _ + 1, [] => none
  | i + 1, c :: s =>
    if c.utf8Size ≤ i + 1 then (splitAt? (i + 1 - c.utf8Size) s).map (Prod.map (c :: ·) id)
    else none

def IsEdge (s : List Char) (i : Nat) : Prop := (String.Pos.Raw.mk i).IsValid (.ofList s)

def slice (s : List Char) (i j : Nat) : Except Fault (List Char) :=
  match (splitAt? j s).bind fun p => splitAt? i p.1 with
  | some (_, t) => return t
  | none => throw (.slice i j)

def find? (c : Char) : List Char → Option Nat
  | [] => none
  | d :: s => if d = c then some 0 else (find? c s).map (d.utf8Size + ·)

variable {c : Char} {s t l r : List Char} {i j : Nat}

@[simp] theorem byteLength_nil : byteLength [] = 0 := rfl

@[simp] theorem byteLength_cons (c : Char) (s : List Char) :
    byteLength (c :: s) = c.utf8Size + byteLength s := rfl

@[simp] theorem byteLength_append (s t : List Char) :
    byteLength (s ++ t) = byteLength s + byteLength t := by
  induction s with
  | nil => exact (Nat.zero_add _).symm
  | cons c s ih => rw [List.cons_append, byteLength_cons, byteLength_cons, ih, Nat.add_assoc]

theorem byteLength_ofList (s : List Char) : (String.ofList s).utf8ByteSize = byteLength s := by
  induction s with
  | nil => rfl
  | cons c s ih =>
    rw [String.ofList_cons, String.utf8ByteSize_append, String.utf8ByteSize_singleton, ih,
      byteLength_cons]

theorem byteLength_pos (hs : s ≠ []) : 0 < byteLength s := by
  obtain ⟨c, s, rfl⟩ := List.exists_cons_of_ne_nil hs
  have := c.utf8Size_pos
  rw [byteLength_cons]
  omega

theorem splitAt?_append (l r : List Char) : splitAt? (byteLength l) (l ++ r) = some (l, r) := by
  induction l with
  | nil => rw [byteLength_nil, List.nil_append, splitAt?]
  | cons c l ih =>
    obtain ⟨i, hi⟩ := Nat.exists_eq_add_one.2 (byteLength_pos (List.cons_ne_nil c l))
    have hcons := byteLength_cons c l
    have hrest : i + 1 - c.utf8Size = byteLength l := by omega
    rw [hi, List.cons_append, splitAt?, if_pos (by omega), hrest, ih]
    rfl

theorem splitAt?_eq_some_iff : splitAt? i s = some (l, r) ↔ s = l ++ r ∧ byteLength l = i := by
  refine ⟨fun h => ?_, fun ⟨hs, hl⟩ => hs ▸ hl ▸ splitAt?_append l r⟩
  fun_induction splitAt? i s generalizing l with
  | case1 => simp_all
  | case2 => simp at h
  | case3 i c s hle ih =>
    obtain ⟨p, hp, hc⟩ := Option.map_eq_some_iff.1 h
    obtain ⟨rfl, rfl⟩ := Prod.mk.inj hc
    obtain ⟨rfl, hlength⟩ := ih hp
    refine ⟨rfl, ?_⟩
    rw [byteLength_cons, hlength]
    omega
  | case4 => simp at h

theorem isEdge_iff : IsEdge s i ↔ ∃ l r, s = l ++ r ∧ byteLength l = i := by
  rw [IsEdge, String.Pos.Raw.isValid_ofList]
  constructor
  · rintro ⟨k, hk⟩
    exact ⟨s.take k, s.drop k, (List.take_append_drop k s).symm, by rw [← byteLength_ofList, ← hk]⟩
  · rintro ⟨l, r, rfl, rfl⟩
    exact ⟨l.length, by rw [List.take_left, byteLength_ofList]⟩

theorem slice_append (l t r : List Char) :
    slice (l ++ t ++ r) (byteLength l) (byteLength (l ++ t)) = .ok t := by
  rw [slice, splitAt?_append, Option.bind_some, splitAt?_append]
  rfl

theorem slice_eq_ok_iff :
    slice s i j = .ok t ↔ ∃ l r, s = l ++ t ++ r ∧ byteLength l = i ∧ byteLength (l ++ t) = j := by
  refine ⟨fun h => ?_, ?_⟩
  · rw [slice] at h
    split at h
    next p hp =>
      cases h
      obtain ⟨⟨u, r⟩, hj, hi⟩ := Option.bind_eq_some_iff.1 hp
      obtain ⟨rfl, hu⟩ := splitAt?_eq_some_iff.1 hj
      obtain ⟨rfl, hl⟩ := splitAt?_eq_some_iff.1 hi
      exact ⟨_, r, rfl, hl, hu⟩
    next => cases h
  · rintro ⟨l, r, rfl, rfl, rfl⟩
    exact slice_append l t r

theorem exists_slice_iff : (∃ t, slice s i j = .ok t) ↔ i ≤ j ∧ IsEdge s i ∧ IsEdge s j := by
  simp only [slice_eq_ok_iff, isEdge_iff]
  constructor
  · rintro ⟨t, l, r, rfl, rfl, rfl⟩
    exact ⟨by simp, ⟨l, t ++ r, by simp, rfl⟩, ⟨l ++ t, r, rfl, rfl⟩⟩
  · rintro ⟨hle, ⟨l, r, rfl, rfl⟩, ⟨u, v, heq, rfl⟩⟩
    rcases List.append_eq_append_iff.1 heq with ⟨t, rfl, rfl⟩ | ⟨t, rfl, rfl⟩
    · exact ⟨t, l, v, by simp, rfl, rfl⟩
    · have ht : t = [] := by
        by_contra hne
        have := byteLength_pos hne
        rw [byteLength_append] at hle
        omega
      exact ⟨[], u, r, by simp [ht], by simp [ht], by simp⟩

example : slice ['é', 'a'] 1 2 = .error (.slice 1 2) := rfl

theorem slice_before (l r : List Char) : slice (l ++ r) 0 (byteLength l) = .ok l :=
  slice_append [] l r

theorem slice_after (l r : List Char) :
    slice (l ++ r) (byteLength l) (byteLength (l ++ r)) = .ok r := by
  have h := slice_append l r []
  rwa [List.append_nil] at h

theorem find?_eq_none (hc : c ∉ s) : find? c s = none := by
  induction s with
  | nil => rfl
  | cons d s ih =>
    obtain ⟨hd, hs⟩ := not_or.1 (List.mem_cons.not.1 hc)
    rw [find?, if_neg (Ne.symm hd), ih hs]
    rfl

theorem find?_append (hc : c ∉ l) (r : List Char) :
    find? c (l ++ c :: r) = some (byteLength l) := by
  induction l with
  | nil => exact if_pos rfl
  | cons d l ih =>
    obtain ⟨hd, hl⟩ := not_or.1 (List.mem_cons.not.1 hc)
    rw [List.cons_append, find?, if_neg (Ne.symm hd), ih hl, Option.map_some, byteLength_cons]

theorem find?_cases (c : Char) (s : List Char) :
    (find? c s = none ∧ s.dropWhile (· != c) = []) ∨
      ∃ l r, s = l ++ c :: r ∧ find? c s = some (byteLength l) ∧ s.takeWhile (· != c) = l ∧
        s.dropWhile (· != c) = c :: r := by
  by_cases hc : c ∈ s
  · obtain ⟨l, r, rfl, hl⟩ := List.eq_append_cons_of_mem hc
    have hne : ∀ d ∈ l, (d != c) = true := fun d hd => bne_iff_ne.2 (ne_of_mem_of_not_mem hd hl)
    refine .inr ⟨l, r, rfl, find?_append hl r, ?_, ?_⟩
    · simp [List.takeWhile_append_of_pos hne]
    · simp [List.dropWhile_append_of_pos hne]
  · refine .inl ⟨find?_eq_none hc, List.dropWhile_eq_nil_iff.2 fun d hd => ?_⟩
    exact bne_iff_ne.2 (ne_of_mem_of_not_mem hd hc)

end DocTree.Text
