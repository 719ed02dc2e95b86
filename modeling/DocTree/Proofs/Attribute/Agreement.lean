import DocTree.Node
import DocTree.Proofs.Number.Equality
import Mathlib.Data.List.Nodup
import Mathlib.Data.List.Forall2

namespace DocTree

def Value.isNaN : Value → Bool
  | double x => x.isNaN
  | _ => false

@[simp] theorem Binary64.agrees_self (x : Binary64) : x.agrees x = !x.isNaN := by
  simp [agrees]

@[simp] theorem Value.agrees_self (v : Value) : v.agrees v = !v.isNaN := by
  cases v <;> simp [agrees, isNaN]

namespace Attributes

theorem nodup_names (s : Attributes) : s.names.Nodup :=
  List.pairwise_map.2 (s.ascending.imp String.ne_of_lt)

theorem mem_iff_find?_eq_some {es : List (String × Value)} (h : (es.map Prod.fst).Nodup)
    {name : String} {v : Value} :
    (name, v) ∈ es ↔ (es.find? (·.1 == name)).map (·.2) = some v := by
  simp only [Option.map_eq_some_iff]
  constructor
  · intro hmem
    cases hfound : es.find? (·.1 == name) with
    | none => simpa using List.find?_eq_none.1 hfound (name, v) hmem
    | some e =>
      have hname : e.1 = name := by simpa using List.find?_some hfound
      have he : e = (name, v) :=
        List.inj_on_of_nodup_map h (List.mem_of_find?_eq_some hfound) hmem hname
      exact ⟨e, rfl, congrArg Prod.snd he⟩
  · rintro ⟨e, hfound, rfl⟩
    have hname : e.1 = name := by simpa using List.find?_some hfound
    exact hname ▸ List.mem_of_find?_eq_some hfound

theorem mem_entries_iff {s : Attributes} {name : String} {v : Value} :
    (name, v) ∈ s.entries ↔ s.get? name = some v :=
  mem_iff_find?_eq_some s.nodup_names

theorem agrees_self_iff {s : Attributes} :
    s.agrees s = true ↔ ∀ name v, s.get? name = some v → v.isNaN = false := by
  simp [agrees, List.zip, List.zipWith_self, ← mem_entries_iff]

end Attributes

theorem NodeData.agrees_self_iff {data : NodeData} :
    data.agrees data = true ↔
      ∀ e, data = .element e → ∀ name v, e.attributes.get? name = some v → v.isNaN = false := by
  cases data <;> simp [agrees, Attributes.agrees_self_iff]

namespace Value

inductive Same : Value → Value → Prop
  | bool : Same (bool b) (bool b)
  | int : Same (int n) (int n)
  | double : x.Equals y → Same (double x) (double y)
  | string : Same (string s) (string s)

variable {u v w : Value}

theorem agrees_iff : v.agrees w = true ↔ v.Same w := by
  constructor
  · intro h
    cases v <;> cases w <;> simp [agrees, Binary64.agrees_iff] at h
    case bool.bool => exact h ▸ .bool
    case int.int => exact h ▸ .int
    case double.double => exact .double h
    case string.string => exact h ▸ .string
  · intro h
    cases h with
    | double h => exact Binary64.agrees_iff.2 h
    | _ => exact beq_self_eq_true _

theorem Same.symm (h : v.Same w) : w.Same v := by
  cases h with
  | bool => exact .bool
  | int => exact .int
  | double h => exact .double h.symm
  | string => exact .string

theorem Same.trans (h : u.Same v) (hvw : v.Same w) : u.Same w := by
  cases h with
  | double h =>
    cases hvw with
    | double hvw => exact .double (h.trans hvw)
  | _ => exact hvw

end Value

namespace Attributes

def Same (s t : Attributes) : Prop := ∀ name, Option.Rel Value.Same (s.get? name) (t.get? name)

def SameEntry (e f : String × Value) : Prop := e.1 = f.1 ∧ e.2.Same f.2

variable {s t u : Attributes} {es fs : List (String × Value)}

theorem agrees_iff_forall₂ : s.agrees t = true ↔ List.Forall₂ SameEntry s.entries t.entries := by
  simp only [agrees, names, Bool.and_eq_true, beq_iff_eq]
  generalize s.entries = es
  generalize t.entries = fs
  induction es generalizing fs with
  | nil => cases fs <;> simp
  | cons e es ih =>
    cases fs with
    | nil => simp
    | cons f fs =>
      rw [List.forall₂_cons, ← ih, SameEntry, ← Value.agrees_iff]
      simp [and_assoc, and_left_comm]

theorem get?_eq_none (h : ∀ e ∈ s.entries, name < e.1) : s.get? name = none := by
  have hnone : s.entries.find? (·.1 == name) = none := List.find?_eq_none.2 fun e he => by
    simpa using (String.ne_of_lt (h e he)).symm
  rw [get?, hnone, Option.map_none]

section Cons

variable {e f : String × Value} (hes : (e :: es).Pairwise fun a b => a.1 < b.1)
  (hfs : (f :: fs).Pairwise fun a b => a.1 < b.1)

theorem get?_cons (name : String) : get? ⟨e :: es, hes⟩ name =
    if e.1 = name then some e.2 else get? ⟨es, hes.of_cons⟩ name := by
  by_cases he : e.1 = name <;> simp [get?, he]

theorem get?_tail : get? ⟨es, hes.of_cons⟩ e.1 = none :=
  get?_eq_none (List.pairwise_cons.1 hes).1

theorem get?_of_lt (hlt : name < e.1) : get? ⟨e :: es, hes⟩ name = none :=
  get?_eq_none (List.forall_mem_cons.2
    ⟨hlt, fun x hx => String.lt_trans hlt ((List.pairwise_cons.1 hes).1 x hx)⟩)

theorem Same.head_eq (h : Same ⟨e :: es, hes⟩ ⟨f :: fs, hfs⟩) : e.1 = f.1 := by
  have hle : ¬ e.1 < f.1 := fun hlt => by
    have := h e.1
    rw [get?_cons, if_pos rfl, get?_of_lt hfs hlt] at this
    cases this
  have hge : ¬ f.1 < e.1 := fun hlt => by
    have := h f.1
    rw [get?_cons hfs, if_pos rfl, get?_of_lt hes hlt] at this
    cases this
  exact String.le_antisymm hge hle

theorem same_cons_iff :
    Same ⟨e :: es, hes⟩ ⟨f :: fs, hfs⟩ ↔
      SameEntry e f ∧ Same ⟨es, hes.of_cons⟩ ⟨fs, hfs.of_cons⟩ := by
  constructor
  · intro h
    have hname := h.head_eq
    refine ⟨⟨hname, ?_⟩, fun name => ?_⟩
    · have hvalue := h e.1
      rw [get?_cons, if_pos rfl, get?_cons, if_pos hname.symm] at hvalue
      cases hvalue with
      | some hvalue => exact hvalue
    · by_cases he : e.1 = name
      · subst he
        have hnone := get?_tail hfs
        rw [← hname] at hnone
        rw [get?_tail hes, hnone]
        exact .none
      · have hrest := h name
        rwa [get?_cons, if_neg he, get?_cons, if_neg (hname ▸ he)] at hrest
  · rintro ⟨⟨hname, hvalue⟩, h⟩ name
    rw [get?_cons, get?_cons, ← hname]
    split
    · exact .some hvalue
    · exact h name

end Cons

theorem rel_symm {v w : Option Value} (h : Option.Rel Value.Same v w) :
    Option.Rel Value.Same w v := by
  cases h with
  | none => exact .none
  | some h => exact .some h.symm

theorem rel_trans {u v w : Option Value} (h : Option.Rel Value.Same u v)
    (hvw : Option.Rel Value.Same v w) : Option.Rel Value.Same u w := by
  cases h with
  | none => exact hvw
  | some h =>
    cases hvw with
    | some hvw => exact .some (h.trans hvw)

theorem Same.symm (h : s.Same t) : t.Same s := fun name => rel_symm (h name)

theorem Same.trans (h : s.Same t) (htu : t.Same u) : s.Same u := fun name =>
  rel_trans (h name) (htu name)

theorem not_same_nil {e : String × Value} (hes : (e :: es).Pairwise fun a b => a.1 < b.1) :
    ¬ Same ⟨e :: es, hes⟩ ⟨[], .nil⟩ := fun h => by
  have hvalue := h e.1
  rw [get?_cons, if_pos rfl] at hvalue
  cases hvalue

theorem same_iff_forall₂ : s.Same t ↔ List.Forall₂ SameEntry s.entries t.entries := by
  obtain ⟨es, hes⟩ := s
  obtain ⟨fs, hfs⟩ := t
  induction es generalizing fs with
  | nil =>
    cases fs with
    | nil => exact iff_of_true (fun _ => .none) .nil
    | cons f fs => exact iff_of_false (fun h => not_same_nil hfs h.symm) (by simp)
  | cons e es ih =>
    cases fs with
    | nil => exact iff_of_false (not_same_nil hes) (by simp)
    | cons f fs => rw [same_cons_iff, List.forall₂_cons, ih]

theorem agrees_iff : s.agrees t = true ↔ s.Same t :=
  agrees_iff_forall₂.trans same_iff_forall₂.symm

end Attributes

namespace NodeData

inductive Same : NodeData → NodeData → Prop
  | document : Same document document
  | element : e.name = f.name → e.attributes.Same f.attributes → Same (element e) (element f)
  | comment : Same (comment s) (comment s)

variable {a b c : NodeData}

theorem agrees_iff : a.agrees b = true ↔ a.Same b := by
  constructor
  · intro h
    cases a <;> cases b <;> simp [agrees, Attributes.agrees_iff] at h
    case document.document => exact .document
    case element.element => exact .element h.1 h.2
    case comment.comment => exact h ▸ .comment
  · intro h
    cases h with
    | document => rfl
    | element hname h => simpa [agrees, hname] using Attributes.agrees_iff.2 h
    | comment => exact beq_self_eq_true _

theorem Same.symm (h : a.Same b) : b.Same a := by
  cases h with
  | document => exact .document
  | element hname h => exact .element hname.symm h.symm
  | comment => exact .comment

theorem Same.trans (h : a.Same b) (hbc : b.Same c) : a.Same c := by
  cases h with
  | element hname h =>
    cases hbc with
    | element hname' h' => exact .element (hname.trans hname') (h.trans h')
  | _ => exact hbc

end NodeData

end DocTree
