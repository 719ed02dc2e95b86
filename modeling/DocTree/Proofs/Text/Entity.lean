import DocTree.Text.Entity
import Mathlib.Logic.Function.Basic

namespace DocTree.Text

def unescapeChars : List Char → List Char
  | '&' :: 'a' :: 'm' :: 'p' :: ';' :: s => '&' :: unescapeChars s
  | '&' :: 'l' :: 't' :: ';' :: s => '<' :: unescapeChars s
  | '&' :: 'g' :: 't' :: ';' :: s => '>' :: unescapeChars s
  | '&' :: 'q' :: 'u' :: 'o' :: 't' :: ';' :: s => '"' :: unescapeChars s
  | '&' :: 'a' :: 'p' :: 'o' :: 's' :: ';' :: s => '\'' :: unescapeChars s
  | c :: s => c :: unescapeChars s
  | [] => []

variable {c : Char} {s t r u : List Char}

theorem unescapeChars_cons (hc : c ≠ '&') (s : List Char) :
    unescapeChars (c :: s) = c :: unescapeChars s := by
  rw [unescapeChars.eq_def]
  split <;> simp_all

theorem entity?_eq_none_iff : entity? c = none ↔ c ∉ signs := by
  unfold entity?
  split <;> simp_all [signs]

theorem isPlain_iff {s : String} : isPlain s = true ↔ ∀ c ∈ s.toList, c ∉ signs := by
  simp [isPlain]

theorem escapeChar_of_notMem (hc : c ∉ signs) : escapeChar c = [c] := by
  rw [escapeChar, entity?_eq_none_iff.2 hc]
  rfl

theorem escapeChars_cons (c : Char) (s : List Char) :
    escapeChars (c :: s) = escapeChar c ++ escapeChars s := List.flatMap_cons

theorem escapeChars_of_notMem (hs : ∀ c ∈ s, c ∉ signs) : escapeChars s = s := by
  induction s with
  | nil => rfl
  | cons c s ih =>
    obtain ⟨hc, hs⟩ := List.forall_mem_cons.1 hs
    rw [escapeChars_cons, escapeChar_of_notMem hc, ih hs, List.singleton_append]

@[simp] theorem toList_escape (s : String) : (escape s).toList = escapeChars s.toList := by
  rw [escape]
  split
  next hplain => exact (escapeChars_of_notMem (isPlain_iff.1 hplain)).symm
  next => exact String.toList_ofList

theorem escapeChar_cases (c : Char) :
    (c = '&' ∧ escapeChar c = "&amp;".toList) ∨ (c = '<' ∧ escapeChar c = "&lt;".toList) ∨
      (c = '>' ∧ escapeChar c = "&gt;".toList) ∨ (c = '"' ∧ escapeChar c = "&quot;".toList) ∨
      (c = '\'' ∧ escapeChar c = "&apos;".toList) ∨
      (c ≠ '&' ∧ c ≠ '"' ∧ escapeChar c = [c]) := by
  rw [escapeChar]
  unfold entity?
  split <;> simp_all

theorem unescapeChars_escapeChar (c : Char) (s : List Char) :
    unescapeChars (escapeChar c ++ s) = c :: unescapeChars s := by
  rcases escapeChar_cases c with
    ⟨rfl, h⟩ | ⟨rfl, h⟩ | ⟨rfl, h⟩ | ⟨rfl, h⟩ | ⟨rfl, h⟩ | ⟨hc, -, h⟩
  · rfl
  · rfl
  · rfl
  · rfl
  · rfl
  · rw [h, List.singleton_append, unescapeChars_cons hc]

theorem unescapeChars_escapeChars (s : List Char) : unescapeChars (escapeChars s) = s := by
  induction s with
  | nil => rfl
  | cons c s ih =>
    rw [escapeChars, List.flatMap_cons, unescapeChars_escapeChar]
    exact congrArg (c :: ·) ih

theorem escapeChars_injective : Function.Injective escapeChars :=
  Function.LeftInverse.injective unescapeChars_escapeChars

theorem quote_notMem_escapeChars (s : List Char) : '"' ∉ escapeChars s := by
  intro h
  obtain ⟨c, -, hc⟩ := List.mem_flatMap.1 h
  rcases escapeChar_cases c with
    ⟨-, h⟩ | ⟨-, h⟩ | ⟨-, h⟩ | ⟨-, h⟩ | ⟨-, h⟩ | ⟨-, hne, h⟩
  all_goals simp [h] at hc
  exact hne hc.symm

/-- A run of characters of one class ends at the first character that is not of it. -/
theorem append_inj_of_run {p : Char → Prop} (hs : ∀ c ∈ s, p c) (ht : ∀ c ∈ t, p c)
    (hr : ∀ c, r.head? = some c → ¬ p c) (hu : ∀ c, u.head? = some c → ¬ p c)
    (h : s ++ r = t ++ u) : s = t ∧ r = u := by
  induction s generalizing t with
  | nil =>
    cases t with
    | nil => exact ⟨rfl, h⟩
    | cons d t => exact absurd (ht d (by simp)) (hr d (by rw [show r = _ from h]; rfl))
  | cons c s ih =>
    cases t with
    | nil => exact absurd (hs c (by simp)) (hu c (by rw [← show _ = u from h]; rfl))
    | cons d t =>
      obtain ⟨rfl, hrest⟩ := List.cons.inj h
      obtain ⟨rfl, hru⟩ := ih (List.forall_mem_cons.1 hs).2 (List.forall_mem_cons.1 ht).2 hrest
      exact ⟨rfl, hru⟩

theorem escapeChars_append_inj (h : escapeChars s ++ '"' :: r = escapeChars t ++ '"' :: u) :
    s = t ∧ r = u := by
  have hne : ∀ v : List Char, ∀ c ∈ escapeChars v, c ≠ '"' := fun v _ hc =>
    ne_of_mem_of_not_mem hc (quote_notMem_escapeChars v)
  obtain ⟨hst, hru⟩ := append_inj_of_run (hne s) (hne t) (by simp) (by simp) h
  exact ⟨escapeChars_injective hst, (List.cons.inj hru).2⟩

def entities : List String := ["&amp;", "&lt;", "&gt;", "&quot;", "&apos;"]

def unescape (s : String) : String := .ofList (unescapeChars s.toList)

theorem mem_entities {e : String} (h : entity? c = some e) : e ∈ entities := by
  unfold entity? at h
  split at h
  case h_6 => exact nomatch h
  all_goals
    cases h
    decide

theorem exists_entity (hc : c ∈ signs) : ∃ e ∈ entities, escapeChar c = e.toList := by
  rw [escapeChar]
  cases h : entity? c with
  | none => exact absurd hc (entity?_eq_none_iff.1 h)
  | some e => exact ⟨e, mem_entities h, rfl⟩

theorem exists_of_mem_entities {e : String} (he : e ∈ entities) :
    ∃ t, e.toList = '&' :: t ∧ t ≠ [] ∧ ∀ c ∈ t, c ∉ signs := by
  have htail : ∀ e ∈ entities, e.toList = '&' :: e.toList.tail ∧ e.toList.tail ≠ [] ∧
      e.toList.tail.all (· ∉ signs) = true := by decide
  obtain ⟨hhead, hne, hplain⟩ := htail e he
  exact ⟨e.toList.tail, hhead, hne, by simpa using hplain⟩

theorem length_le_escapeChars (s : List Char) : s.length ≤ (escapeChars s).length := by
  induction s with
  | nil => exact Nat.le_refl 0
  | cons c s ih =>
    have hpos : 0 < (escapeChar c).length := by
      by_cases hc : c ∈ signs
      · obtain ⟨e, he, h⟩ := exists_entity hc
        obtain ⟨t, ht, -⟩ := exists_of_mem_entities he
        simp [h, ht]
      · simp [escapeChar_of_notMem hc]
    rw [escapeChars_cons, List.length_append, List.length_cons]
    omega

theorem escapeChars_eq_self_iff : escapeChars s = s ↔ ∀ c ∈ s, c ∉ signs := by
  refine ⟨fun heq => ?_, escapeChars_of_notMem⟩
  induction s with
  | nil => exact List.forall_mem_nil _
  | cons c s ih =>
    rw [escapeChars_cons] at heq
    by_cases hc : c ∈ signs
    · obtain ⟨e, he, h⟩ := exists_entity hc
      obtain ⟨t, ht, hne, -⟩ := exists_of_mem_entities he
      have hlength := congrArg List.length heq
      have hle := length_le_escapeChars s
      have hpos := List.length_pos_iff.2 hne
      simp only [h, ht, List.length_append, List.length_cons] at hlength
      omega
    · rw [escapeChar_of_notMem hc, List.singleton_append, List.cons_inj_right] at heq
      exact List.forall_mem_cons.2 ⟨hc, ih heq⟩

theorem eq_of_mem_escapeChars (hc : c ∈ escapeChars s) (hsign : c ∈ signs) : c = '&' := by
  obtain ⟨d, -, hcd⟩ := List.mem_flatMap.1 hc
  by_cases hd : d ∈ signs
  · obtain ⟨e, he, h⟩ := exists_entity hd
    obtain ⟨t, ht, -, hplain⟩ := exists_of_mem_entities he
    rw [h, ht, List.mem_cons] at hcd
    exact hcd.resolve_right fun hct => hplain c hct hsign
  · rw [escapeChar_of_notMem hd, List.mem_singleton] at hcd
    exact absurd (hcd ▸ hsign) hd

theorem suffix_of_notMem (hc : c ∉ t) (h : c :: r <:+ t ++ s) : c :: r <:+ s := by
  induction t with
  | nil => exact h
  | cons d t ih =>
    obtain ⟨hne, ht⟩ := not_or.1 (List.mem_cons.not.1 hc)
    rw [List.cons_append, List.suffix_cons_iff] at h
    exact ih ht (h.resolve_left fun heq => hne (List.cons.inj heq).1)

theorem entity_of_suffix (h : '&' :: r <:+ escapeChars s) :
    ∃ e ∈ entities, e.toList <+: '&' :: r := by
  induction s with
  | nil => simp [escapeChars] at h
  | cons c s ih =>
    rw [escapeChars_cons] at h
    by_cases hc : c ∈ signs
    · obtain ⟨e, he, hentity⟩ := exists_entity hc
      obtain ⟨t, ht, -, hplain⟩ := exists_of_mem_entities he
      have hand : '&' ∉ t := fun hmem => hplain '&' hmem (by decide)
      rw [hentity, ht, List.cons_append, List.suffix_cons_iff] at h
      rcases h with h | h
      · exact ⟨e, he, by rw [ht, h]; exact List.prefix_append ('&' :: t) (escapeChars s)⟩
      · exact ih (suffix_of_notMem hand h)
    · have hand : '&' ∉ [c] := fun hmem => hc (List.mem_singleton.1 hmem ▸ by decide)
      rw [escapeChar_of_notMem hc] at h
      exact ih (suffix_of_notMem hand h)

/-- Escaping is undone by putting the signs back.  Of the signs it leaves the `&` of entities only,
it changes exactly the texts that are not plain, those with a sign, and it works character by
character. -/
theorem escape_lossless (s t : String) :
    unescape (escape s) = s ∧
    (∀ c ∈ ['<', '>', '"', '\''], c ∉ (escape s).toList) ∧
    (∀ r, '&' :: r <:+ (escape s).toList → ∃ e ∈ entities, e.toList <+: '&' :: r) ∧
    (escape s = s ↔ ∀ c ∈ s.toList, c ∉ signs) ∧
    (isPlain s = true ↔ ∀ c ∈ s.toList, c ∉ signs) ∧
    escape (s ++ t) = escape s ++ escape t := by
  rw [toList_escape]
  refine ⟨?_, fun c hc hmem => ?_, fun r => entity_of_suffix, ?_, isPlain_iff, ?_⟩
  · rw [unescape, toList_escape, unescapeChars_escapeChars, String.ofList_toList]
  · rw [eq_of_mem_escapeChars hmem (List.mem_cons_of_mem _ hc)] at hc
    exact absurd hc (by decide)
  · rw [← String.toList_inj, toList_escape, escapeChars_eq_self_iff]
  · rw [← String.toList_inj]
    simp

example : escape "a<b & \"c\"'" = "a&lt;b &amp; &quot;c&quot;&apos;" := rfl

end DocTree.Text
