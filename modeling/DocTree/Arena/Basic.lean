import DocTree.Error

/-! The store of nodes.  A node lives in the slot of its number; a released slot stays empty, so
numbers are never used again. -/

namespace DocTree

structure Arena where
  slots : Array (Option Node)
  live : Nat
  deriving DecidableEq

namespace Arena

def empty : Arena := ⟨#[], 0⟩

instance : Inhabited Arena := ⟨empty⟩

def find? (a : Arena) (x : NodeId) : Option Node := a.slots[x]?.join

def get (a : Arena) (x : NodeId) : Except Error Node :=
  match a.find? x with
  | some n => .ok n
  | none => .error (.unknownNode x)

def isLive (a : Arena) (x : NodeId) : Bool := (a.find? x).isSome

def size (a : Arena) : Nat := a.live

def isEmpty (a : Arena) : Bool := a.live == 0

def nodes (a : Arena) : List Node := a.slots.toList.filterMap id

def ids (a : Arena) : List NodeId := a.nodes.map (·.id)

def nextId (a : Arena) : NodeId := a.slots.size

def push (a : Arena) (owner : Option NodeId) (data : NodeData) : Arena :=
  ⟨a.slots.push (some (.detached a.nextId owner data)), a.live + 1⟩

def update (a : Arena) (x : NodeId) (f : Node → Node) : Arena :=
  { a with slots := a.slots.modify x (Option.map f) }

def drop (a : Arena) (xs : List NodeId) : Arena :=
  ⟨xs.foldl (fun slots x => slots.modify x fun _ => none) a.slots, a.live - xs.length⟩

@[simp] theorem find?_empty (x : NodeId) : empty.find? x = none := by simp [find?, empty]

theorem get_eq_ok_iff {a : Arena} {x : NodeId} {n : Node} :
    a.get x = .ok n ↔ a.find? x = some n := by
  simp only [get]
  cases a.find? x <;> simp

theorem find?_push (a : Arena) (owner : Option NodeId) (data : NodeData) (x : NodeId) :
    (a.push owner data).find? x =
      if x = a.nextId then some (.detached a.nextId owner data) else a.find? x := by
  simp only [find?, push, Array.getElem?_push, nextId]
  by_cases h : x = a.slots.size <;> simp [h]

theorem find?_update (a : Arena) (x : NodeId) (f : Node → Node) (y : NodeId) :
    (a.update x f).find? y = if x = y then (a.find? y).map f else a.find? y := by
  simp only [find?, update, Array.getElem?_modify]
  split
  · rcases a.slots[y]? with _ | _ | n <;> rfl
  · rfl

@[simp] theorem nextId_update (a : Arena) (x : NodeId) (f : Node → Node) :
    (a.update x f).nextId = a.nextId := by simp [update, nextId]

theorem find?_drop (a : Arena) (xs : List NodeId) (y : NodeId) :
    (a.drop xs).find? y = if y ∈ xs then none else a.find? y := by
  suffices h : ∀ slots : Array (Option Node),
      ((xs.foldl (fun s x => s.modify x fun _ => none) slots)[y]?).join =
        if y ∈ xs then none else (slots[y]?).join from h a.slots
  induction xs with
  | nil => simp
  | cons x xs ih =>
    intro slots
    rw [List.foldl_cons, ih, Array.getElem?_modify]
    by_cases hy : x = y
    · subst hy
      cases slots[x]? <;> simp
    · simp [hy, Ne.symm hy]

theorem find?_lt {a : Arena} {x : NodeId} {n : Node} (h : a.find? x = some n) : x < a.nextId := by
  simp only [find?, Option.join_eq_some_iff] at h
  exact (Array.getElem?_eq_some_iff.1 h).1

end Arena

end DocTree
