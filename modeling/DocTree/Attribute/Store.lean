import DocTree.Attribute.Value
import DocTree.Text.Blank
import DocTree.Text.Letter

namespace DocTree

/-- Names ascend by code point, so equal contents are equal stores. -/
structure Attributes where
  entries : List (String × Value)
  ascending : entries.Pairwise fun a b => a.1 < b.1
  deriving DecidableEq

namespace Attributes

def empty : Attributes := ⟨[], .nil⟩

instance : Inhabited Attributes := ⟨empty⟩

def insertEntry (name : String) (value : Value) : List (String × Value) → List (String × Value)
  | [] => [(name, value)]
  | e :: es =>
    if name < e.1 then (name, value) :: e :: es
    else if name = e.1 then (name, value) :: es
    else e :: insertEntry name value es

theorem mem_insertEntry {name : String} {value : Value} {es : List (String × Value)}
    {x : String × Value} (h : x ∈ insertEntry name value es) : x = (name, value) ∨ x ∈ es := by
  induction es with
  | nil => simpa [insertEntry] using h
  | cons e es ih =>
    simp only [insertEntry] at h
    split at h
    · simpa using h
    · split at h
      · simp only [List.mem_cons] at h ⊢
        exact h.imp_right .inr
      · simp only [List.mem_cons] at h ⊢
        rcases h with h | h
        · exact .inr (.inl h)
        · exact (ih h).imp_right .inr

theorem ascending_insertEntry (name : String) (value : Value) {es : List (String × Value)}
    (h : es.Pairwise fun a b => a.1 < b.1) :
    (insertEntry name value es).Pairwise fun a b => a.1 < b.1 := by
  induction es with
  | nil => simp [insertEntry]
  | cons e es ih =>
    obtain ⟨he, hes⟩ := List.pairwise_cons.1 h
    simp only [insertEntry]
    split
    next hlt =>
      refine List.pairwise_cons.2 ⟨fun x hx => ?_, h⟩
      rcases List.mem_cons.1 hx with rfl | hx
      · exact hlt
      · exact String.lt_trans hlt (he x hx)
    next hlt =>
      split
      next heq => exact List.pairwise_cons.2 ⟨fun x hx => heq ▸ he x hx, hes⟩
      next hne =>
        refine List.pairwise_cons.2 ⟨fun x hx => ?_, ih hes⟩
        rcases mem_insertEntry hx with rfl | hx
        · rcases Decidable.em (e.1 < name) with h | h
          · exact h
          · exact absurd (String.le_antisymm h hlt) hne
        · exact he x hx

def set (a : Attributes) (name : String) (value : Value) : Attributes :=
  ⟨insertEntry name value a.entries, ascending_insertEntry name value a.ascending⟩

def erase (a : Attributes) (name : String) : Attributes :=
  ⟨a.entries.filter (·.1 != name), a.ascending.filter _⟩

def get? (a : Attributes) (name : String) : Option Value :=
  (a.entries.find? (·.1 == name)).map (·.2)

def contains (a : Attributes) (name : String) : Bool := (a.get? name).isSome

def ofList (pairs : List (String × Value)) : Attributes :=
  pairs.foldl (fun a p => a.set p.1 p.2) empty

def size (a : Attributes) : Nat := a.entries.length

def isEmpty (a : Attributes) : Bool := a.entries.isEmpty

def names (a : Attributes) : List String := a.entries.map (·.1)

def text (a : Attributes) (name : String) : String := ((a.get? name).map Value.text).getD ""

/-- The attribute of that name, else one whose name differs in ASCII case only. -/
def getIgnoringCase? (a : Attributes) (name : String) : Option Value :=
  (a.get? name).or ((a.entries.find? (Text.sameIgnoringCase ·.1 name)).map (·.2))

def agrees (a b : Attributes) : Bool :=
  a.names == b.names && (a.entries.zip b.entries).all fun p => p.1.2.agrees p.2.2

theorem find?_insertEntry (name : String) (value : Value) (es : List (String × Value))
    (k : String) :
    (insertEntry name value es).find? (·.1 == k) =
      if name = k then some (name, value) else es.find? (·.1 == k) := by
  induction es with
  | nil => by_cases h : name = k <;> simp [insertEntry, h]
  | cons e es ih =>
    simp only [insertEntry]
    split
    · by_cases h : name = k <;> simp [h]
    · split
      next heq => by_cases h : name = k <;> simp_all
      next hne =>
        by_cases he : e.1 = k
        · simp [he, show name ≠ k from he ▸ hne]
        · simp [he, ih]

@[simp] theorem get?_set (a : Attributes) (name : String) (value : Value) (k : String) :
    (a.set name value).get? k = if name = k then some value else a.get? k := by
  simp only [get?, set, find?_insertEntry]
  split <;> rfl

@[simp] theorem get?_erase (a : Attributes) (name k : String) :
    (a.erase name).get? k = if name = k then none else a.get? k := by
  simp only [get?, erase, List.find?_filter]
  split
  next h => subst h; simp
  next h =>
    congr 2
    funext p
    by_cases hp : p.1 = k
    · simp [hp, Ne.symm h]
    · simp [hp]

end Attributes

def classTokens (s : String) : List String :=
  (Text.words s.toList).map fun w => .ofList (Text.lower w)

end DocTree
