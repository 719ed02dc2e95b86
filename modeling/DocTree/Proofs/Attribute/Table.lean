import DocTree.Proofs.Attribute.Agreement
import Mathlib.Data.List.Perm.Subperm
import Mathlib.Data.String.Basic
import Mathlib.Data.List.Sort

/-! Attributes in a table without an order of its own: its entries are gone through in an order that
nothing is known of.  No reader shows the order, and each gives what it gives of the attributes in
the order of names. -/

namespace DocTree

/-- Values by name, in the order in which they are gone through. -/
structure Table where
  entries : List (String × Value)
  distinct : (entries.map Prod.fst).Nodup

namespace Table

def get? (t : Table) (name : String) : Option Value :=
  (t.entries.find? (·.1 == name)).map (·.2)

def names (t : Table) : List String := (t.entries.map Prod.fst).mergeSort

def text (t : Table) (name : String) : String := ((t.get? name).map Value.text).getD ""

def resolved (t : Table) : List (String × String) := t.names.map fun k => (k, t.text k)

def getIgnoringCase? (t : Table) (name : String) : Option Value :=
  (t.get? name).or ((t.entries.find? (Text.sameIgnoringCase ·.1 name)).map (·.2))

def agrees (t u : Table) : Bool :=
  t.entries.length == u.entries.length && t.entries.all fun p => (u.get? p.1).any p.2.agrees

def Alike (t u : Table) : Prop := ∀ name, t.get? name = u.get? name

def Unambiguous (t : Table) (name : String) : Prop :=
  ∀ k ∈ t.names, ∀ l ∈ t.names, Text.sameIgnoringCase k name = true →
    Text.sameIgnoringCase l name = true → k = l

end Table

def Attributes.table (s : Attributes) : Table := ⟨s.entries, s.nodup_names⟩

namespace Table

variable {t u v : Table} {name : String} {value : Value} {s r : Attributes}

theorem mem_entries_iff : (name, value) ∈ t.entries ↔ t.get? name = some value :=
  Attributes.mem_iff_find?_eq_some t.distinct

theorem names_perm (t : Table) : t.names.Perm (t.entries.map Prod.fst) :=
  List.mergeSort_perm _ _

theorem nodup_names (t : Table) : t.names.Nodup := t.names_perm.nodup_iff.2 t.distinct

theorem mem_names_iff : name ∈ t.names ↔ (t.get? name).isSome = true := by
  rw [t.names_perm.mem_iff, List.mem_map, Option.isSome_iff_exists]
  constructor
  · rintro ⟨⟨name, value⟩, hp, rfl⟩
    exact ⟨value, mem_entries_iff.1 hp⟩
  · rintro ⟨value, h⟩
    exact ⟨(name, value), mem_entries_iff.2 h, rfl⟩

theorem ascending_names (t : Table) : t.names.Pairwise (· < ·) := by
  have hsorted : t.names.Pairwise (· ≤ ·) := List.pairwise_mergeSort' (· ≤ ·) _
  refine (hsorted.and t.nodup_names).imp fun {k l} h => ?_
  exact lt_of_le_of_ne h.1 h.2

theorem names_eq {ks : List String} (hks : ks.Pairwise (· < ·))
    (hperm : ks.Perm (t.entries.map Prod.fst)) : t.names = ks :=
  (t.names_perm.trans hperm.symm).eq_of_pairwise
    (fun _ _ _ _ hlt hgt => absurd hgt (lt_asymm hlt)) t.ascending_names hks

theorem isSome_eq_of_rel {a b : Option Value} (h : Option.Rel Value.Same a b) :
    a.isSome = b.isSome := by
  cases h <;> rfl

theorem exists_same_of_rel {a b : Option Value} (h : Option.Rel Value.Same a b)
    (ha : a = some value) : ∃ w, b = some w ∧ value.Same w := by
  cases h with
  | none => cases ha
  | some h =>
    cases ha
    exact ⟨_, rfl, h⟩

theorem length_names (t : Table) : t.names.length = t.entries.length := by
  rw [t.names_perm.length_eq, List.length_map]

theorem names_perm_of_subset (hsub : t.names ⊆ u.names)
    (hlength : t.entries.length = u.entries.length) : t.names.Perm u.names := by
  refine (List.subperm_of_subset t.nodup_names hsub).perm_of_length_le ?_
  rw [length_names, length_names, hlength]

theorem agrees_iff :
    t.agrees u = true ↔ ∀ name, Option.Rel Value.Same (t.get? name) (u.get? name) := by
  rw [agrees, Bool.and_eq_true, beq_iff_eq, List.all_eq_true]
  constructor
  · rintro ⟨hlength, hall⟩ name
    have hfound : ∀ {k w}, t.get? k = some w → ∃ w', u.get? k = some w' ∧ w.Same w' := by
      intro k w hk
      obtain ⟨w', hw', hagrees⟩ := (Option.any_eq_true ..).1 (hall _ (mem_entries_iff.2 hk))
      exact ⟨w', hw', Value.agrees_iff.1 hagrees⟩
    have hsub : t.names ⊆ u.names := by
      intro k hk
      obtain ⟨w, hw⟩ := Option.isSome_iff_exists.1 (mem_names_iff.1 hk)
      obtain ⟨w', hw', -⟩ := hfound hw
      exact mem_names_iff.2 (Option.isSome_iff_exists.2 ⟨w', hw'⟩)
    cases ht : t.get? name with
    | some w =>
      obtain ⟨w', hw', hsame⟩ := hfound ht
      rw [hw']
      exact .some hsame
    | none =>
      have hu : u.get? name = none := by
        rw [← Option.not_isSome_iff_eq_none, ← mem_names_iff,
          ← (names_perm_of_subset hsub hlength).mem_iff, mem_names_iff, ht]
        exact Bool.false_ne_true
      rw [hu]
      exact .none
  · intro h
    have hnames : t.names.Perm u.names := by
      refine (List.perm_ext_iff_of_nodup t.nodup_names u.nodup_names).2 fun name => ?_
      rw [mem_names_iff, mem_names_iff, isSome_eq_of_rel (h name)]
    refine ⟨by rw [← length_names, ← length_names, hnames.length_eq], ?_⟩
    rintro ⟨name, w⟩ hp
    obtain ⟨w', hw', hsame⟩ := exists_same_of_rel (h name) (mem_entries_iff.1 hp)
    exact (Option.any_eq_true ..).2 ⟨w', hw', Value.agrees_iff.2 hsame⟩

theorem Alike.symm (h : t.Alike u) : u.Alike t := fun name => (h name).symm

theorem Alike.trans (h : t.Alike u) (hu : u.Alike v) : t.Alike v :=
  fun name => (h name).trans (hu name)

theorem Alike.perm (h : t.Alike u) : t.entries.Perm u.entries := by
  refine (List.perm_ext_iff_of_nodup t.distinct.of_map u.distinct.of_map).2 ?_
  rintro ⟨name, value⟩
  rw [mem_entries_iff, mem_entries_iff, h name]

theorem Alike.names_eq (h : t.Alike u) : t.names = u.names :=
  Table.names_eq u.ascending_names (u.names_perm.trans (h.perm.map Prod.fst).symm)

theorem Alike.text_eq (h : t.Alike u) (name : String) : t.text name = u.text name := by
  rw [text, text, h name]

theorem Alike.resolved_eq (h : t.Alike u) : t.resolved = u.resolved := by
  rw [resolved, resolved, h.names_eq, funext h.text_eq]

theorem Alike.agrees_left (h : t.Alike u) (v : Table) : t.agrees v = u.agrees v := by
  rw [agrees, agrees, h.perm.length_eq, h.perm.all_eq]

theorem Alike.agrees_right (h : t.Alike u) (v : Table) : v.agrees t = v.agrees u := by
  rw [agrees, agrees, h.perm.length_eq, funext h]

theorem Unambiguous.entry_eq (h : t.Unambiguous name) {p q : String × Value} (hp : p ∈ t.entries)
    (hq : q ∈ t.entries) (hpname : Text.sameIgnoringCase p.1 name = true)
    (hqname : Text.sameIgnoringCase q.1 name = true) : p = q := by
  have hnames : ∀ r ∈ t.entries, r.1 ∈ t.names :=
    fun r hr => t.names_perm.mem_iff.2 (List.mem_map_of_mem hr)
  exact List.inj_on_of_nodup_map t.distinct hp hq
    (h p.1 (hnames p hp) q.1 (hnames q hq) hpname hqname)

theorem Alike.getIgnoringCase?_eq (h : t.Alike u) (ht : t.Unambiguous name) :
    t.getIgnoringCase? name = u.getIgnoringCase? name := by
  have hfind : t.entries.find? (Text.sameIgnoringCase ·.1 name) =
      u.entries.find? (Text.sameIgnoringCase ·.1 name) := by
    cases hfound : u.entries.find? (Text.sameIgnoringCase ·.1 name) with
    | none =>
      rw [List.find?_eq_none] at hfound ⊢
      exact fun p hp => hfound p (h.perm.mem_iff.1 hp)
    | some q =>
      have hq := h.perm.mem_iff.2 (List.mem_of_find?_eq_some hfound)
      obtain ⟨p, hp⟩ := Option.isSome_iff_exists.1
        (List.find?_isSome.2 ⟨q, hq, List.find?_some hfound⟩)
      have hpname := List.find?_some hp
      have hqname := List.find?_some hfound
      rw [hp, ht.entry_eq (List.mem_of_find?_eq_some hp) hq hpname hqname]
  rw [getIgnoringCase?, getIgnoringCase?, h name, hfind]

theorem names_table (s : Attributes) : s.table.names = s.names :=
  names_eq (List.pairwise_map.2 s.ascending) (.refl _)

theorem agrees_table (s r : Attributes) : s.table.agrees r.table = s.agrees r := by
  rw [Bool.eq_iff_iff, agrees_iff, Attributes.agrees_iff]
  rfl

end Table

theorem Attributes.ext_get? {s r : Attributes} (h : ∀ name, s.get? name = r.get? name) : s = r := by
  have hperm : s.table.entries.Perm r.table.entries := Table.Alike.perm h
  have hentries : s.entries = r.entries :=
    hperm.eq_of_pairwise (fun _ _ _ _ hlt hgt => absurd hgt (lt_asymm hlt)) s.ascending r.ascending
  obtain ⟨es, hes⟩ := s
  obtain ⟨fs, hfs⟩ := r
  obtain rfl : es = fs := hentries
  rfl

end DocTree
