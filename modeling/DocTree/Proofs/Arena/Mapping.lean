import DocTree.Arena.Basic
import Mathlib.Data.List.Basic

/-! Arenas as partial maps from numbers to nodes.  An edit of nodes in their places is one map over
the arena, and two edits agree if they agree on the live nodes. -/

namespace DocTree.Arena

variable {a b : Arena} {f g : NodeId → Node → Node} {x y : NodeId} {n : Node}

def mapNodes (a : Arena) (f : NodeId → Node → Node) : Arena :=
  { a with slots := a.slots.mapIdx fun x => Option.map (f x) }

@[simp] theorem find?_mapNodes (a : Arena) (f : NodeId → Node → Node) (x : NodeId) :
    (a.mapNodes f).find? x = (a.find? x).map (f x) := by
  simp only [find?, mapNodes, Array.getElem?_mapIdx]
  rcases a.slots[x]? with _ | _ | n <;> rfl

@[simp] theorem nextId_mapNodes (a : Arena) (f : NodeId → Node → Node) :
    (a.mapNodes f).nextId = a.nextId := by
  simp [mapNodes, nextId]

@[simp] theorem live_mapNodes (a : Arena) (f : NodeId → Node → Node) :
    (a.mapNodes f).live = a.live := rfl

theorem getElem?_slots (a : Arena) (x : NodeId) :
    a.slots[x]? = if x < a.nextId then some (a.find? x) else none := by
  simp only [find?, nextId]
  by_cases h : x < a.slots.size <;> simp [h]

theorem ext_find? (hsize : a.nextId = b.nextId) (hlive : a.live = b.live)
    (hfind : ∀ x, a.find? x = b.find? x) : a = b := by
  have hslots : a.slots = b.slots := by
    apply Array.ext_getElem?
    intro x
    rw [getElem?_slots, getElem?_slots, hsize, hfind]
  cases a
  cases b
  simp_all

theorem mapNodes_congr (h : ∀ x n, a.find? x = some n → f x n = g x n) :
    a.mapNodes f = a.mapNodes g := by
  refine ext_find? (by simp) rfl ?_
  intro x
  rw [find?_mapNodes, find?_mapNodes]
  exact Option.map_congr (h x)

theorem mapNodes_mapNodes (a : Arena) (f g : NodeId → Node → Node) :
    (a.mapNodes f).mapNodes g = a.mapNodes fun x n => g x (f x n) := by
  refine ext_find? (by simp) rfl ?_
  intro x
  simp [Function.comp_def]

theorem mapNodes_eq_self (h : ∀ x n, a.find? x = some n → f x n = n) : a.mapNodes f = a := by
  refine ext_find? (by simp) rfl ?_
  intro x
  rw [find?_mapNodes, Option.map_congr (h x), Option.map_id']

theorem update_eq_mapNodes (a : Arena) (x : NodeId) (f : Node → Node) :
    a.update x f = a.mapNodes fun y n => if x = y then f n else n := by
  refine ext_find? (by simp) rfl ?_
  intro y
  rw [find?_update, find?_mapNodes]
  split
  · rfl
  · exact Option.map_id'.symm

def updateAll (a : Arena) (xs : List NodeId) (f : Node → Node) : Arena :=
  xs.foldl (fun a x => a.update x f) a

@[simp] theorem nextId_updateAll (a : Arena) (xs : List NodeId) (f : Node → Node) :
    (a.updateAll xs f).nextId = a.nextId := by
  induction xs generalizing a with
  | nil => rfl
  | cons x xs ih => exact (ih (a.update x f)).trans (nextId_update ..)

theorem find?_updateAll (a : Arena) {xs : List NodeId} (h : xs.Nodup) (f : Node → Node)
    (y : NodeId) :
    (a.updateAll xs f).find? y = if y ∈ xs then (a.find? y).map f else a.find? y := by
  induction xs generalizing a with
  | nil => rfl
  | cons x xs ih =>
    obtain ⟨hx, hxs⟩ := List.nodup_cons.1 h
    rw [show a.updateAll (x :: xs) f = (a.update x f).updateAll xs f from rfl, ih _ hxs,
      find?_update]
    by_cases hy : x = y
    · subst hy; simp [hx]
    · simp [hy, Ne.symm hy]

theorem updateAll_eq_mapNodes {xs : List NodeId} (h : xs.Nodup) (f : Node → Node) :
    a.updateAll xs f = a.mapNodes fun y n => if y ∈ xs then f n else n := by
  have hlive : (a.updateAll xs f).live = a.live := by
    clear h
    induction xs generalizing a with
    | nil => rfl
    | cons x xs ih => exact ih
  refine ext_find? (by simp) hlive ?_
  intro y
  rw [find?_updateAll a h, find?_mapNodes]
  split
  · rfl
  · exact Option.map_id'.symm

theorem nodes_eq_filterMap (a : Arena) : a.nodes = (List.range a.nextId).filterMap a.find? := by
  have hslots : a.slots.toList = (List.range a.nextId).map a.find? := by
    apply List.ext_getElem?
    intro x
    rw [Array.getElem?_toList, getElem?_slots]
    by_cases h : x < a.nextId <;> simp [h]
  rw [nodes, hslots, List.filterMap_map]
  rfl

theorem mem_nodes_iff : n ∈ a.nodes ↔ ∃ x, a.find? x = some n := by
  rw [nodes_eq_filterMap, List.mem_filterMap]
  constructor
  · rintro ⟨x, -, h⟩
    exact ⟨x, h⟩
  · rintro ⟨x, h⟩
    exact ⟨x, List.mem_range.2 (find?_lt h), h⟩

theorem length_nodes (a : Arena) : a.nodes.length = (List.range a.nextId).countP a.isLive := by
  rw [nodes_eq_filterMap, List.length_filterMap_eq_countP]
  rfl

theorem length_nodes_congr (hsize : a.nextId = b.nextId) (hlive : ∀ x, a.isLive x = b.isLive x) :
    a.nodes.length = b.nodes.length := by
  rw [length_nodes, length_nodes, hsize]
  exact List.countP_congr fun x _ => by rw [hlive]

@[simp] theorem isLive_mapNodes (a : Arena) (f : NodeId → Node → Node) (x : NodeId) :
    (a.mapNodes f).isLive x = a.isLive x := by
  simp [isLive]

@[simp] theorem length_nodes_mapNodes (a : Arena) (f : NodeId → Node → Node) :
    (a.mapNodes f).nodes.length = a.nodes.length :=
  length_nodes_congr (nextId_mapNodes a f) (isLive_mapNodes a f)

end DocTree.Arena
