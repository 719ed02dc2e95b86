import DocTree.Proofs.Arena.Siblings

namespace DocTree.Arena

inductive Trail (next : NodeId → Except Error (Option NodeId)) :
    (start : Option NodeId) → (xs : List NodeId) → Prop
  | stop : Trail next none []
  | step : next x = .ok y → Trail next y xs → Trail next (some x) (x :: xs)

/-- `far` goes on along `near` until it comes to an element. -/
def SeeksElement (a : Arena) (near far : NodeId → Except Error (Option NodeId)) : Prop :=
  ∀ x, far x = do
    match ← near x with
    | none => return none
    | some y => if (← a.get y).isElement then return some y else far y

structure SiblingLaws (a : Arena) : Prop where
  next_iff_previous : ∀ {x y},
    a.nextSibling x = .ok (some y) ↔ a.previousSibling y = .ok (some x)
  attached : ∀ {x p}, a.parent x = .ok (some p) →
    (∃ y, a.nextSibling x = .ok y) ∧ ∃ y, a.previousSibling x = .ok y
  detached : ∀ {x}, a.parent x = .ok none →
    a.nextSibling x = .ok none ∧ a.previousSibling x = .ok none
  next_element : a.SeeksElement a.nextSibling a.nextElementSibling
  previous_element : a.SeeksElement a.previousSibling a.previousElementSibling
  rounds : ∀ {p n}, a.find? p = some n → ∃ cs first last, a.children p = .ok cs ∧
    a.firstChildElement p = .ok first ∧ Trail a.nextElementSibling first cs ∧
    a.lastChildElement p = .ok last ∧ Trail a.previousElementSibling last cs.reverse ∧
    a.childElementCount p = .ok cs.length

variable {a : Arena} {x y p : NodeId} {n m : Node} {xs ys zs : List NodeId}
  {row : NodeId → Except Error (List NodeId)}

def nearest (row : NodeId → Except Error (List NodeId)) (x : NodeId) :
    Except Error (Option NodeId) :=
  return (← row x).head?

def nearestElement (a : Arena) (row : NodeId → Except Error (List NodeId)) (x : NodeId) :
    Except Error (Option NodeId) :=
  return (← a.elementsOf (← row x)).head?

def before (a : Arena) (x : NodeId) : Except Error (List NodeId) := return (← a.around x).1

def after (a : Arena) (x : NodeId) : Except Error (List NodeId) := return (← a.around x).2

theorem previousSibling_eq_nearest (a : Arena) : a.previousSibling = nearest a.before := by
  funext x
  rw [previousSibling, nearest, before]
  cases a.around x <;> rfl

theorem nextSibling_eq_nearest (a : Arena) : a.nextSibling = nearest a.after := by
  funext x
  rw [nextSibling, nearest, after]
  cases a.around x <;> rfl

theorem previousElementSibling_eq_nearestElement (a : Arena) :
    a.previousElementSibling = a.nearestElement a.before := by
  funext x
  rw [previousElementSibling, earlierElements, nearestElement, before]
  cases a.around x <;> rfl

theorem nextElementSibling_eq_nearestElement (a : Arena) :
    a.nextElementSibling = a.nearestElement a.after := by
  funext x
  rw [nextElementSibling, laterElements, nearestElement, after]
  cases a.around x <;> rfl

theorem nearest_eq_ok (hx : row x = .ok xs) : nearest row x = .ok xs.head? := by
  simp [nearest, hx]

theorem nearest_eq_some_iff : nearest row x = .ok (some y) ↔ ∃ ys, row x = .ok (y :: ys) := by
  simp [nearest, bind_eq_ok_iff, List.head?_eq_some_iff]

theorem nearestElement_eq (hx : row x = .ok xs) (hxs : ∀ y ∈ xs, ∃ n, a.find? y = some n) :
    a.nearestElement row x = .ok (xs.filter a.isElementAt).head? := by
  simp [nearestElement, hx, elementsOf_eq hxs]

/-- The nodes of each row are live, and the row of the first of them is the rest. -/
structure Side (a : Arena) (row : NodeId → Except Error (List NodeId)) : Prop where
  live : ∀ {x xs}, row x = .ok xs → ∀ y ∈ xs, ∃ n, a.find? y = some n
  rest : ∀ {x y ys}, row x = .ok (y :: ys) → row y = .ok ys

theorem Side.seeksElement (hside : a.Side row) :
    a.SeeksElement (nearest row) (a.nearestElement row) := by
  intro x
  cases hrow : row x with
  | error e => simp [nearest, nearestElement, hrow]
  | ok xs =>
    rw [nearestElement_eq hrow (hside.live hrow)]
    cases xs with
    | nil => simp [nearest, hrow]
    | cons y ys =>
      obtain ⟨⟨n, hn⟩, hys⟩ := List.forall_mem_cons.1 (hside.live hrow)
      rw [List.filter_cons, isElementAt_eq hn]
      cases hel : n.isElement <;>
        simp [nearest, hrow, get_eq_ok hn, hel, nearestElement_eq (hside.rest hrow) hys]

theorem trail_nearestElement (hzs : ∀ z ∈ zs, ∃ n, a.find? z = some n)
    (hrow : ∀ xs z ys, zs = xs ++ z :: ys → row z = .ok ys) :
    Trail (a.nearestElement row) (zs.filter a.isElementAt).head? (zs.filter a.isElementAt) := by
  induction zs with
  | nil => exact .stop
  | cons z zs ih =>
    obtain ⟨-, hzs⟩ := List.forall_mem_cons.1 hzs
    have hrest := ih hzs fun xs w ys hsplit => hrow (z :: xs) w ys (by rw [hsplit]; rfl)
    rw [List.filter_cons]
    split
    · exact .step (nearestElement_eq (hrow [] z zs rfl) hzs) hrest
    · exact hrest

namespace Forest

variable (h : a.Forest)
include h

theorem before_of_split (hp : a.find? p = some m) (hsplit : m.children = xs ++ x :: ys) :
    a.before x = .ok xs.reverse := by
  simp [before, h.around_eq (h.hasParent_of_mem hp (by simp [hsplit])) hp hsplit]

theorem after_of_split (hp : a.find? p = some m) (hsplit : m.children = xs ++ x :: ys) :
    a.after x = .ok ys := by
  simp [after, h.around_eq (h.hasParent_of_mem hp (by simp [hsplit])) hp hsplit]

theorem exists_split_of_around (hx : a.around x = .ok (xs, ys)) (hne : xs ≠ [] ∨ ys ≠ []) :
    ∃ p m, a.find? p = some m ∧ m.children = xs.reverse ++ x :: ys := by
  cases hn : a.find? x with
  | none => simp [around, get_eq_error hn] at hx
  | some n =>
    cases hp : n.parent with
    | none =>
      cases hx.symm.trans (around_root hn hp)
      simp at hne
    | some p =>
      obtain ⟨m, zs, ws, hm, hsplit⟩ := h.exists_split ⟨n, hn, hp⟩
      cases hx.symm.trans (h.around_eq ⟨n, hn, hp⟩ hm hsplit)
      exact ⟨p, m, hm, by rw [List.reverse_reverse, hsplit]⟩

theorem before_eq_cons_iff :
    a.before x = .ok (y :: xs) ↔
      ∃ p m ys, a.find? p = some m ∧ m.children = xs.reverse ++ y :: x :: ys := by
  constructor
  · intro hx
    obtain ⟨⟨_, ys⟩, haround, hxs⟩ := bind_eq_ok_iff.1 hx
    obtain rfl := Except.ok.inj hxs
    obtain ⟨p, m, hm, hsplit⟩ := h.exists_split_of_around haround (.inl (List.cons_ne_nil y xs))
    exact ⟨p, m, ys, hm, by simpa using hsplit⟩
  · rintro ⟨p, m, ys, hm, hsplit⟩
    have hsplit' : m.children = (xs.reverse ++ [y]) ++ x :: ys := by simpa using hsplit
    rw [h.before_of_split hm hsplit', List.reverse_append, List.reverse_reverse]
    rfl

theorem after_eq_cons_iff :
    a.after x = .ok (y :: ys) ↔
      ∃ p m xs, a.find? p = some m ∧ m.children = xs ++ x :: y :: ys := by
  constructor
  · intro hx
    obtain ⟨⟨xs, _⟩, haround, hys⟩ := bind_eq_ok_iff.1 hx
    obtain rfl := Except.ok.inj hys
    obtain ⟨p, m, hm, hsplit⟩ := h.exists_split_of_around haround (.inr (List.cons_ne_nil y ys))
    exact ⟨p, m, xs.reverse, hm, hsplit⟩
  · rintro ⟨p, m, xs, hm, hsplit⟩
    exact h.after_of_split hm hsplit

theorem side_before : a.Side a.before where
  live {x xs} hx := by
    cases xs with
    | nil => exact nofun
    | cons y xs =>
      obtain ⟨p, m, ys, hm, hsplit⟩ := h.before_eq_cons_iff.1 hx
      rw [List.append_cons, ← List.reverse_cons] at hsplit
      intro z hz
      refine h.child_live hm z ?_
      rw [hsplit]
      exact List.mem_append_left _ (List.mem_reverse.2 hz)
  rest {x y xs} hx := by
    obtain ⟨p, m, ys, hm, hsplit⟩ := h.before_eq_cons_iff.1 hx
    rw [h.before_of_split hm hsplit, List.reverse_reverse]

theorem side_after : a.Side a.after where
  live {x ys} hx := by
    cases ys with
    | nil => exact nofun
    | cons y ys =>
      obtain ⟨p, m, xs, hm, hsplit⟩ := h.after_eq_cons_iff.1 hx
      exact fun z hz => h.child_live hm z (by simp_all)
  rest {x y ys} hx := by
    obtain ⟨p, m, xs, hm, hsplit⟩ := h.after_eq_cons_iff.1 hx
    have hsplit' : m.children = (xs ++ [x]) ++ y :: ys := by simpa using hsplit
    exact h.after_of_split hm hsplit'

theorem siblingLaws : a.SiblingLaws where
  next_iff_previous {x y} := by
    simp only [nextSibling_eq_nearest, previousSibling_eq_nearest, nearest_eq_some_iff,
      h.before_eq_cons_iff, h.after_eq_cons_iff]
    constructor
    · rintro ⟨ys, p, m, xs, hm, hsplit⟩
      exact ⟨xs.reverse, p, m, ys, hm, by rw [List.reverse_reverse, hsplit]⟩
    · rintro ⟨xs, p, m, ys, hm, hsplit⟩
      exact ⟨ys, p, m, xs.reverse, hm, hsplit⟩
  attached {x p} hx := by
    obtain ⟨m, xs, ys, hm, hsplit⟩ := h.exists_split (parent_eq_ok_iff.1 hx)
    rw [nextSibling_eq_nearest, previousSibling_eq_nearest]
    exact ⟨⟨_, nearest_eq_ok (h.after_of_split hm hsplit)⟩,
      ⟨_, nearest_eq_ok (h.before_of_split hm hsplit)⟩⟩
  detached {x} hx := by
    obtain ⟨n, hn, hp⟩ := parent_eq_ok_iff.1 hx
    simp [nextSibling, previousSibling, around_root hn hp]
  next_element := by
    rw [nextSibling_eq_nearest, nextElementSibling_eq_nearestElement]
    exact h.side_after.seeksElement
  previous_element := by
    rw [previousSibling_eq_nearest, previousElementSibling_eq_nearestElement]
    exact h.side_before.seeksElement
  rounds {p n} hp := by
    refine ⟨_, _, _, h.children_eq hp, h.firstChildElement_eq hp, ?forth, h.lastChildElement_eq hp,
      ?back, h.childElementCount_eq hp⟩
    case forth =>
      rw [nextElementSibling_eq_nearestElement]
      exact trail_nearestElement (h.child_live hp) fun _ _ _ hsplit => h.after_of_split hp hsplit
    case back =>
      rw [previousElementSibling_eq_nearestElement, ← List.filter_reverse,
        List.getLast?_eq_head?_reverse, ← List.filter_reverse]
      refine trail_nearestElement (fun z hz => h.child_live hp z (List.mem_reverse.1 hz)) ?_
      intro xs z ys hsplit
      have hsplit' : n.children = ys.reverse ++ z :: xs.reverse := by
        rw [← List.reverse_reverse n.children, hsplit]
        simp
      rw [h.before_of_split hp hsplit', List.reverse_reverse]

end Forest

end DocTree.Arena
