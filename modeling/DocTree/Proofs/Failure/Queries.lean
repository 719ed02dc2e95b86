import DocTree.Markup.Path
import DocTree.Markup.Serializer
import DocTree.Proofs.Failure.Readers
import DocTree.Query

namespace DocTree

open Arena (AllLive Known)

variable {a : Arena} {given : List NodeId} {x : NodeId} {xs : List NodeId} {E : Error → Prop}

namespace RunYields

variable {p : NodeId → Matcher Bool}

theorem remember {m : Matcher Bool} {k : Nat} (hm : RunYields E (fun _ => True) m) :
    RunYields E (fun _ => True) (Matcher.remember x k m) := by
  intro memo
  cases hknown : memo[(x, k)]? with
  | some b => simp [Matcher.remember, hknown]
  | none =>
    have h := hm memo
    cases hrun : m.run memo <;> simp_all [Matcher.remember]

theorem any (hp : ∀ x ∈ xs, RunYields E (fun _ => True) (p x)) :
    RunYields E (fun _ => True) (Matcher.any p xs) := by
  induction xs with
  | nil => exact .ok trivial
  | cons x xs ih =>
    refine (hp x List.mem_cons_self).bind fun b _ => ?_
    cases b with
    | true => exact .ok trivial
    | false => exact ih fun y hy => hp y (List.mem_cons_of_mem x hy)

theorem filterBelow (h : a.Forest) (hp : ∀ {y}, a.Known given y → RunFailsDueTo a given (p y))
    (fuel : Nat) (hxs : ∀ x ∈ xs, a.Known given x) :
    RunYields (Error.DueTo a given) (AllLive a) (Matcher.filterBelow a p fuel xs) := by
  induction fuel generalizing xs with
  | zero => cases xs <;> exact .ok nofun
  | succ fuel ih =>
    cases xs with
    | nil => exact .ok nofun
    | cons x rest =>
      obtain ⟨hx, hrest⟩ := List.forall_mem_cons.1 hxs
      refine RunYields.bind (P := fun r => AllLive a r.1 ∧ AllLive a r.2) ?_ fun r hr => ?_
      · refine (hp hx).bind fun b _ => (RunYields.lift (Yields.get hx)).bind fun n hn =>
          .ok ⟨?_, h.child_live hn⟩
        split
        · exact fun y hy => List.mem_singleton.1 hy ▸ ⟨n, hn⟩
        · exact nofun
      · have hnext : ∀ y ∈ r.2 ++ rest, a.Known given y := fun y hy =>
          (List.mem_append.1 hy).elim (fun hy => .inr (hr.2 y hy)) (hrest y)
        refine (ih hnext).bind fun ys hys => .ok ?_
        exact fun y hy => (List.mem_append.1 hy).elim (hr.1 y) (hys y)

theorem findBelow? (h : a.Forest) (hp : ∀ {y}, a.Known given y → RunFailsDueTo a given (p y))
    (fuel : Nat) (hxs : ∀ x ∈ xs, a.Known given x) :
    RunYields (Error.DueTo a given) (fun o => ∀ y ∈ o, a.Known given y)
      (Matcher.findBelow? a p fuel xs) := by
  induction fuel generalizing xs with
  | zero => cases xs <;> exact .ok nofun
  | succ fuel ih =>
    cases xs with
    | nil => exact .ok nofun
    | cons x rest =>
      obtain ⟨hx, hrest⟩ := List.forall_mem_cons.1 hxs
      refine (hp hx).bind fun b _ => ?_
      cases b with
      | true => exact .ok fun y hy => Option.some.inj hy ▸ hx
      | false =>
        refine (RunYields.lift (Yields.get hx)).bind fun n hn => ih fun y hy => ?_
        exact (List.mem_append.1 hy).elim (fun hy => .inr (h.child_live hn y hy)) (hrest y)

theorem anyAlong {next : NodeId → Except Error (Option NodeId)}
    (hnext : ∀ {y}, a.Known given y →
      Yields (Error.DueTo a given) (fun o => ∀ p ∈ o, ∃ m, a.find? p = some m) (next y))
    (hp : ∀ {y}, a.Known given y → RunFailsDueTo a given (p y))
    (fuel : Nat) (hx : a.Known given x) :
    RunFailsDueTo a given (Matcher.anyAlong next p fuel x) := by
  induction fuel generalizing x with
  | zero => exact .ok trivial
  | succ fuel ih =>
    refine (RunYields.lift (hnext hx)).bind fun o ho => ?_
    cases o with
    | none => exact .ok trivial
    | some y =>
      have hy : a.Known given y := .inr (ho y rfl)
      refine (hp hy).bind fun b _ => ?_
      cases b with
      | true => exact .ok trivial
      | false => exact ih hy

theorem onElement {p : Element → Matcher Bool} (hx : a.Known given x)
    (hp : ∀ e, RunFailsDueTo a given (p e)) :
    RunFailsDueTo a given (Matcher.onElement a x p) := by
  refine (RunYields.lift (Yields.get hx)).bind fun n _ => ?_
  cases n.element? with
  | some e => exact hp e
  | none => exact .ok trivial

theorem fresh {P : α → Prop} {m : Matcher α} (hm : RunYields E P m) : Yields E P m.fresh := by
  have h := hm ∅
  rw [Matcher.fresh]
  cases hrun : m.run ∅ with
  | ok v memo => rwa [hrun] at h
  | error e memo => rwa [hrun] at h

end RunYields

namespace Yields

variable (h : a.Forest)

theorem ofType (name : String) (hxs : ∀ x ∈ xs, a.Known given x) :
    FailsDueTo a given (a.ofType name xs) := by
  induction xs with
  | nil => exact .ok trivial
  | cons x xs ih =>
    exact (localName (hxs x List.mem_cons_self)).bind fun _ _ =>
      (ih fun y hy => hxs y (List.mem_cons_of_mem x hy)).andReturn

include h

theorem siblingsOfType (hx : a.Known given x) (name : String) :
    FailsDueTo a given (a.siblingsOfType x name) :=
  (siblingElements h hx).bind fun _ hys => ofType name fun y hy => .inr (hys y hy)

theorem holds (hx : a.Known given x) (e : Element) (p : Predicate) :
    FailsDueTo a given (p.holds a x e) := by
  cases p with
  | root =>
    refine (parent h hx).bind fun o ho => ?_
    cases o with
    | none => exact .ok trivial
    | some p => exact (Yields.get (.inr (ho p rfl))).andReturn
  | empty => exact (childElementCount h hx).andReturn
  | onlyChild =>
    exact (previousElementSibling h hx).bind fun _ _ => (nextElementSibling h hx).andReturn
  | onlyOfType => exact (siblingsOfType h hx e.name).andReturn
  | nthChild pattern => exact (siblingElements h hx).andReturn
  | nthOfType pattern => exact (siblingsOfType h hx e.name).andReturn
  | _ => exact .ok trivial

end Yields

namespace RunYields

variable (h : a.Forest)
include h

theorem holds (hx : a.Known given x) (p : Predicate) (k : Nat) :
    RunFailsDueTo a given (Matcher.remember x k (Matcher.onElement a x fun e => p.holds a x e)) :=
  remember (onElement hx fun e => .lift (Yields.holds h hx e p))

theorem allHold (hx : a.Known given x) (parts : List Predicate) (first : Nat) :
    RunFailsDueTo a given (Predicate.allHold a x parts first) := by
  induction parts generalizing first with
  | nil => exact .ok trivial
  | cons p parts ih =>
    refine (holds h hx p first).bind fun b _ => ?_
    cases b with
    | true => exact ih (first + 1)
    | false => exact .ok trivial

theorem selects (s : Selector) (first : Nat) (hx : a.Known given x) :
    RunFailsDueTo a given (s.selects a first x) := by
  induction s generalizing first x with
  | simple p => exact holds h hx p first
  | all parts =>
    refine remember (onElement hx fun _ => ?_)
    split
    · exact .ok trivial
    · exact allHold h hx parts first
  | combined c left right ihl ihr =>
    refine remember (onElement hx fun _ => ?_)
    cases c with
    | descendant =>
      refine (ihr _ hx).bind fun b _ => ?_
      cases b with
      | true => exact anyAlong (Yields.parentElement h) (ihl first) _ hx
      | false => exact .ok trivial
    | child =>
      refine (RunYields.lift (Yields.parentElement h hx)).bind fun o ho => ?_
      cases o with
      | none => exact .ok trivial
      | some p =>
        refine (ihl first (.inr (ho p rfl))).bind fun b _ => ?_
        cases b with
        | true => exact ihr _ hx
        | false => exact .ok trivial
    | sibling =>
      refine (ihr _ hx).bind fun b _ => ?_
      cases b with
      | true =>
        exact (RunYields.lift (Yields.earlierElements h hx)).bind fun _ hys =>
          any fun y hy => ihl first (.inr (hys y hy))
      | false => exact .ok trivial

theorem someSelects (hx : a.Known given x) (groups : List Selector) (first : Nat) :
    RunFailsDueTo a given (SelectorList.someSelects a x groups first) := by
  induction groups generalizing first with
  | nil => exact .ok trivial
  | cons s rest ih =>
    refine (selects h s first hx).bind fun b _ => ?_
    cases b with
    | true => exact .ok trivial
    | false => exact ih (first + s.size)

theorem listSelects (l : SelectorList) (hx : a.Known given x) :
    RunFailsDueTo a given (l.selects a x) :=
  remember (onElement hx fun _ => someSelects h hx l.groups 0)

end RunYields

namespace Yields

variable (h : a.Forest)
include h

theorem isSelected (hx : a.Known given x) (l : SelectorList) :
    FailsDueTo a given (a.isSelected x l) :=
  (RunYields.listSelects h l hx).fresh

theorem queryAll (hx : a.Known given x) (l : SelectorList) :
    Yields (Error.DueTo a given) (AllLive a) (a.queryAll x l) :=
  (RunYields.filterBelow h (RunYields.listSelects h l) _ (by simpa using hx)).fresh

theorem query (hx : a.Known given x) (l : SelectorList) :
    Yields (Error.DueTo a given) (fun o => ∀ y ∈ o, ∃ n, a.find? y = some n) (a.query x l) := by
  cases hn : a.find? x with
  | none =>
    have herror : a.query x l = .error (.unknownNode x) := by
      simp [Arena.query, Matcher.findBelow?, SelectorList.selects, Matcher.remember,
        Matcher.onElement, Matcher.fresh, Arena.get_eq_error hn]
    rw [herror]
    exact .error ⟨hx.resolve_right (by simp [hn]), hn⟩
  | some n =>
    -- From a node that is there the walk misses none, whatever numbers are given.
    have hfound : Yields (Error.DueTo a []) (fun o => ∀ y ∈ o, a.Known [] y) (a.query x l) :=
      (RunYields.findBelow? h (RunYields.listSelects h l) _ (by simp [Known, hn])).fresh
    refine hfound.mono (fun o ho y hy => (ho y hy).resolve_left nofun) fun e he => ?_
    cases e with
    | unknownNode k => exact absurd he.1 nofun
    | _ => exact he

theorem elementsByClass (hx : a.Known given x) (names : String) :
    Yields (Error.DueTo a given) (AllLive a) (a.elementsByClass x names) := by
  rw [Arena.elementsByClass]
  split
  · exact (Yields.get hx).bind fun _ _ => .ok nofun
  · refine (descendants h hx).bind fun ys hys => ?_
    have hnodes : Yields (Error.DueTo a given) (fun ns => ∀ n ∈ ns, a.find? n.id = some n)
        (ys.mapM a.get) := Yields.mapM fun y hy =>
      (Yields.get (.inr (hys y hy))).mono (fun n hn => (h.id_eq hn).symm ▸ hn) fun _ => id
    refine hnodes.bind fun ns hns => .ok fun y hy => ?_
    obtain ⟨n, hn, rfl⟩ := List.mem_map.1 hy
    exact ⟨n, hns n (List.mem_of_mem_filter hn)⟩

theorem pathStep (hx : a.Known given x) :
    FailsDueTo a given (Markup.pathStep a x) := by
  refine (localName hx).bind fun _ _ => (parentElement h hx).bind fun o _ => ?_
  cases o with
  | none => exact .ok trivial
  | some p => exact (siblingElements h hx).andReturn

theorem pathSteps (hxs : ∀ x ∈ xs, a.Known given x) :
    FailsDueTo a given (Markup.pathSteps a xs) := by
  induction xs with
  | nil => exact .ok trivial
  | cons x xs ih =>
    exact (pathStep h (hxs x List.mem_cons_self)).bind fun _ _ =>
      (ih fun y hy => hxs y (List.mem_cons_of_mem x hy)).andReturn

theorem path (hx : a.Known given x) : FailsDueTo a given (Markup.path a x) := by
  refine (Yields.get hx).bind fun n _ => ?_
  split
  · exact .error trivial
  · refine (ancestorElements h hx).bind fun ys hys => (pathSteps h fun y hy => ?_).andReturn
    exact (List.mem_cons.1 hy).elim (fun heq => heq ▸ hx) fun hy => .inr (hys y hy)

end Yields

def Markup.Task.subject : Markup.Task → NodeId
  | .node x _ => x
  | .close x _ => x

namespace Yields

variable (h : a.Forest)
include h

theorem perform (f : Markup.Format) {t : Markup.Task} (ht : a.Known given t.subject) :
    Yields (Error.DueTo a given)
      (fun r => (∀ o ∈ r.1, True) ∧ ∀ u ∈ r.2, a.Known given u.subject) (f.perform a t) := by
  cases t with
  | close x depth => exact (element ht).bind fun _ _ => .ok ⟨fun _ _ => trivial, nofun⟩
  | node x depth =>
    refine (Yields.get ht).bind fun n hn => ?_
    have hchildren : ∀ d, ∀ u ∈ n.children.map (Markup.Task.node · d), a.Known given u.subject := by
      intro d u hu
      obtain ⟨c, hc, rfl⟩ := List.mem_map.1 hu
      exact .inr (h.child_live hn c hc)
    cases n.data with
    | document => exact .ok ⟨fun _ _ => trivial, hchildren depth⟩
    | comment s => exact .ok ⟨fun _ _ => trivial, nofun⟩
    | element e =>
      refine .ok ⟨fun _ _ => trivial, fun u hu => ?_⟩
      rcases List.mem_append.1 hu with hu | hu
      · exact hchildren _ u hu
      · exact (List.mem_singleton.1 hu) ▸ ht

theorem serialize (f : Markup.Format) (hx : a.Known given x) :
    FailsDueTo a given (f.serialize a x) :=
  (Yields.run (I := fun t => a.Known given t.subject) (fun _ => perform h f) _
    fun _ ht => (List.mem_singleton.1 ht) ▸ hx).andReturn

end Yields

end DocTree
