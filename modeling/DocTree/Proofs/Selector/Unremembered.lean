import DocTree.Proofs.Outcome
import DocTree.Proofs.Selector.Rows
import DocTree.Query

/-! Selection without a memo.  A memo that keeps nothing but results of this selection does not
show: each question has the same outcome with it, failures included, in any arena. -/

namespace DocTree

namespace Arena

def onElement (a : Arena) (x : NodeId) (p : Element → Except Error Bool) : Except Error Bool := do
  match (← a.get x).element? with
  | some e => p e
  | none => return false

def anyAlong (next : NodeId → Except Error (Option NodeId)) (p : NodeId → Except Error Bool) :
    Nat → NodeId → Except Error Bool
  | 0, _ => return false
  | fuel + 1, x => do
    match ← next x with
    | none => return false
    | some y => if ← p y then return true else anyAlong next p fuel y

end Arena

def Predicate.evaluate (a : Arena) (p : Predicate) (x : NodeId) : Except Error Bool :=
  a.onElement x fun e => p.holds a x e

/-- Whether the selector selects `x`, worked out anew at every node that is asked. -/
def Selector.evaluate (a : Arena) : Selector → NodeId → Except Error Bool
  | .simple p, x => p.evaluate a x
  | .all parts, x => a.onElement x fun _ =>
      if parts.isEmpty then return false else parts.allM (·.evaluate a x)
  | .combined .descendant left right, x => a.onElement x fun _ => do
      if ← right.evaluate a x then
        Arena.anyAlong a.parentElement (left.evaluate a) (a.nextId + 1) x
      else return false
  | .combined .child left right, x => a.onElement x fun _ => do
      match ← a.parentElement x with
      | some p => if ← left.evaluate a p then right.evaluate a x else return false
      | none => return false
  | .combined .sibling left right, x => a.onElement x fun _ => do
      if ← right.evaluate a x then (← a.earlierElements x).anyM (left.evaluate a)
      else return false

def SelectorList.evaluate (a : Arena) (l : SelectorList) (x : NodeId) : Except Error Bool :=
  a.onElement x fun _ => l.groups.anyM (·.evaluate a x)

abbrev Evaluation := NodeId → Except Error Bool

def Selector.evaluations (a : Arena) : Selector → List Evaluation
  | .simple p => [p.evaluate a]
  | .all parts => parts.map (·.evaluate a) ++ [(Selector.all parts).evaluate a]
  | .combined c left right =>
    left.evaluations a ++ right.evaluations a ++ [(Selector.combined c left right).evaluate a]

def SelectorList.evaluations (a : Arena) (l : SelectorList) : List Evaluation :=
  l.groups.flatMap (·.evaluations a) ++ [l.evaluate a]

def Memo.Recalls (memo : Memo) (vs : List Evaluation) : Prop :=
  ∀ (x : NodeId) (k : Nat) (b : Bool), memo[(x, k)]? = some b →
    ∃ v : Evaluation, vs[k]? = some v ∧ v x = .ok b

variable {vs : List Evaluation} {v : Evaluation} {first : Nat}

theorem Memo.recalls_empty (vs : List Evaluation) : Memo.Recalls ∅ vs := by
  intro x k b h
  simp at h

theorem Memo.Recalls.insert {memo : Memo} {x : NodeId} {k : Nat} {b : Bool} (h : memo.Recalls vs)
    (hk : vs[k]? = some v) (hb : v x = .ok b) : Memo.Recalls (memo.insert (x, k) b) vs := by
  intro y j c hc
  rw [Memo.getElem?_insert] at hc
  split at hc
  next heq =>
    cases heq
    cases hc
    exact ⟨v, hk, hb⟩
  next => exact h y j c hc

theorem Selector.length_evaluations (a : Arena) (s : Selector) :
    (s.evaluations a).length = s.size := by
  induction s with
  | simple p => rfl
  | all parts => simp [evaluations, size]
  | combined c left right ihl ihr => simp [evaluations, size, ihl, ihr, Nat.add_assoc]

theorem SelectorList.length_flatMap_evaluations (a : Arena) (groups : List Selector) :
    (groups.flatMap (·.evaluations a)).length = groupSize groups := by
  induction groups with
  | nil => rfl
  | cons s rest ih => simp [groupSize, ih, Selector.length_evaluations]

namespace Matcher

/-- With a memo of results the question has this outcome, and the memo stays one of results. -/
def Follows (vs : List Evaluation) (m : Matcher α) (e : Except Error α) : Prop :=
  ∀ memo : Memo, memo.Recalls vs → ∃ memo' : Memo, memo'.Recalls vs ∧
    m.run memo = match e with
      | .ok v => .ok v memo'
      | .error err => .error err memo'

variable {a : Arena} {m : Matcher α} {e : Except Error α} {x : NodeId}

theorem follows_pure (v : α) : Follows vs (pure v) (.ok v) := fun memo h => ⟨memo, h, rfl⟩

theorem follows_lift (e : Except Error α) : Follows vs (liftM e) e := by
  intro memo h
  cases e with
  | ok v => exact ⟨memo, h, rfl⟩
  | error err => exact ⟨memo, h, rfl⟩

theorem Follows.bind {f : α → Matcher β} {g : α → Except Error β} (hm : Follows vs m e)
    (hf : ∀ v, Follows vs (f v) (g v)) : Follows vs (m >>= f) (e >>= g) := by
  intro memo h
  obtain ⟨memo₁, h₁, hrun⟩ := hm memo h
  cases e with
  | error err => exact ⟨memo₁, h₁, by simp [hrun]⟩
  | ok v =>
    obtain ⟨memo₂, h₂, hrest⟩ := hf v memo₁ h₁
    exact ⟨memo₂, h₂, by simp [hrun, hrest]⟩

theorem follows_remember {m : Matcher Bool} {k : Nat} (hk : vs[k]? = some v)
    (hm : Follows vs m (v x)) : Follows vs (remember x k m) (v x) := by
  intro memo h
  cases hknown : memo[(x, k)]? with
  | some b =>
    obtain ⟨w, hw, hb⟩ := h x k b hknown
    obtain rfl := Option.eq_some_unique hk hw
    exact ⟨memo, h, by simp [remember, hknown, hb]⟩
  | none =>
    obtain ⟨memo', h', hrun⟩ := hm memo h
    cases hv : v x with
    | error err =>
      rw [hv] at hrun
      exact ⟨memo', h', by simp [remember, hknown, hrun]⟩
    | ok b =>
      rw [hv] at hrun
      exact ⟨memo'.insert (x, k) b, h'.insert hk hv, by simp [remember, hknown, hrun]⟩

theorem follows_onElement {p : Element → Matcher Bool} {q : Element → Except Error Bool}
    (hp : ∀ e, Follows vs (p e) (q e)) :
    Follows vs (onElement a x p) (a.onElement x q) := by
  refine (follows_lift (a.get x)).bind fun n => ?_
  cases n.element? with
  | some e => exact hp e
  | none => exact follows_pure false

theorem follows_any {p : NodeId → Matcher Bool} {q : Evaluation}
    (hp : ∀ y, Follows vs (p y) (q y)) (ys : List NodeId) : Follows vs (any p ys) (ys.anyM q) := by
  induction ys with
  | nil => exact follows_pure false
  | cons y ys ih =>
    refine (hp y).bind fun b => ?_
    cases b with
    | true => exact follows_pure true
    | false => exact ih

theorem follows_anyAlong {next : NodeId → Except Error (Option NodeId)} {p : NodeId → Matcher Bool}
    {q : Evaluation} (hp : ∀ y, Follows vs (p y) (q y)) (fuel : Nat) (x : NodeId) :
    Follows vs (anyAlong next p fuel x) (Arena.anyAlong next q fuel x) := by
  induction fuel generalizing x with
  | zero => exact follows_pure false
  | succ fuel ih =>
    refine (follows_lift (next x)).bind fun y => ?_
    cases y with
    | none => exact follows_pure false
    | some y =>
      refine (hp y).bind fun b => ?_
      cases b with
      | true => exact follows_pure true
      | false => exact ih y

end Matcher

open Matcher

variable {a : Arena} {x : NodeId}

theorem Predicate.follows_holds (p : Predicate) :
    Follows vs (onElement a x fun e => p.holds a x e) (p.evaluate a x) :=
  follows_onElement fun e => follows_lift (p.holds a x e)

theorem Predicate.follows_allHold {parts : List Predicate}
    (h : RowsAt vs first (parts.map (·.evaluate a))) :
    Follows vs (Predicate.allHold a x parts first) (parts.allM (·.evaluate a x)) := by
  induction parts generalizing first with
  | nil => exact follows_pure true
  | cons p parts ih =>
    have hsplit : RowsAt vs first ([p.evaluate a] ++ parts.map (·.evaluate a)) := h
    have htail : RowsAt vs (first + 1) (parts.map (·.evaluate a)) := hsplit.right
    refine (follows_remember h.head p.follows_holds).bind fun b => ?_
    cases b with
    | true => exact ih htail
    | false => exact follows_pure false

theorem Selector.follows_selects (s : Selector) (h : RowsAt vs first (s.evaluations a))
    (x : NodeId) : Follows vs (s.selects a first x) (s.evaluate a x) := by
  induction s generalizing first x with
  | simple p => exact follows_remember h.head p.follows_holds
  | all parts =>
    have hroot := h.right.head
    rw [List.length_map] at hroot
    refine follows_remember hroot (follows_onElement fun e => ?_)
    cases parts with
    | nil => exact follows_pure false
    | cons p parts => exact Predicate.follows_allHold h.left
  | combined c left right ihl ihr =>
    have hleft := ihl h.left.left
    have hright := ihr (length_evaluations a left ▸ h.left.right)
    have hroot := h.right.head
    rw [List.length_append, length_evaluations, length_evaluations, ← Nat.add_assoc] at hroot
    refine follows_remember hroot ?_
    cases c with
    | descendant =>
      refine follows_onElement fun e => (hright x).bind fun b => ?_
      cases b with
      | true => exact follows_anyAlong hleft (a.nextId + 1) x
      | false => exact follows_pure false
    | child =>
      refine follows_onElement fun e => (follows_lift (a.parentElement x)).bind fun p => ?_
      cases p with
      | none => exact follows_pure false
      | some p =>
        refine (hleft p).bind fun b => ?_
        cases b with
        | true => exact hright x
        | false => exact follows_pure false
    | sibling =>
      refine follows_onElement fun e => (hright x).bind fun b => ?_
      cases b with
      | true => exact (follows_lift (a.earlierElements x)).bind (follows_any hleft)
      | false => exact follows_pure false

namespace SelectorList

theorem follows_someSelects {groups : List Selector}
    (h : RowsAt vs first (groups.flatMap (·.evaluations a))) :
    Follows vs (someSelects a x groups first) (groups.anyM (·.evaluate a x)) := by
  induction groups generalizing first with
  | nil => exact follows_pure false
  | cons s rest ih =>
    have hrest : RowsAt vs (first + s.size) (rest.flatMap (·.evaluations a)) :=
      Selector.length_evaluations a s ▸ h.right
    refine (s.follows_selects h.left x).bind fun b => ?_
    cases b with
    | true => exact follows_pure true
    | false => exact ih hrest

theorem follows_selects (a : Arena) (l : SelectorList) (x : NodeId) :
    Follows (l.evaluations a) (l.selects a x) (l.evaluate a x) := by
  have h := rowsAt_self (l.evaluations a)
  have hroot := h.right.head
  rw [length_flatMap_evaluations, Nat.zero_add] at hroot
  exact follows_remember hroot (follows_onElement fun _ => follows_someSelects h.left)

end SelectorList

def Matcher.askAll (p : NodeId → Matcher Bool) : List NodeId → Memo → List (Except Error Bool)
  | [], _ => []
  | x :: xs, memo =>
    match (p x).run memo with
    | .ok b memo => .ok b :: askAll p xs memo
    | .error e memo => .error e :: askAll p xs memo

theorem Matcher.askAll_eq_map {p : NodeId → Matcher Bool} {q : Evaluation}
    (hp : ∀ x, Follows vs (p x) (q x)) (xs : List NodeId) {memo : Memo} (h : memo.Recalls vs) :
    askAll p xs memo = xs.map q := by
  induction xs generalizing memo with
  | nil => rfl
  | cons x xs ih =>
    obtain ⟨memo', h', hrun⟩ := hp x memo h
    cases hx : q x <;> simp [askAll, hrun, hx, ih h']

theorem Matcher.Follows.fresh_eq {m : Matcher α} {e : Except Error α} (h : Follows vs m e) :
    m.fresh = e := by
  obtain ⟨memo, -, hrun⟩ := h ∅ (Memo.recalls_empty vs)
  cases e <;> simp [fresh, hrun]

/-- The memo does not show: asked one after another with one memo, each node gets the answer that it
gets with a fresh one, and the one that is computed with none. -/
theorem SelectorList.askAll_selects (a : Arena) (l : SelectorList) (xs : List NodeId) :
    askAll (l.selects a) xs ∅ = xs.map (a.isSelected · l) ∧
      askAll (l.selects a) xs ∅ = xs.map (l.evaluate a) := by
  have hask : askAll (l.selects a) xs ∅ = xs.map (l.evaluate a) :=
    askAll_eq_map (l.follows_selects a) xs (Memo.recalls_empty _)
  have hfresh : ∀ x, a.isSelected x l = l.evaluate a x := fun x => (l.follows_selects a x).fresh_eq
  simp only [hask, hfresh, and_self]

end DocTree
