import DocTree.Arena.Walk
import DocTree.Proofs.Failure.Basic

namespace DocTree

variable {a : Arena} {given : List NodeId} {x y : NodeId} {n : Node} {xs : List NodeId}

namespace Arena

theorem Forest.live_of_mem_parent (h : a.Forest) (hx : a.find? x = some n) :
    ∀ p ∈ n.parent, ∃ m, a.find? p = some m := by
  intro p hp
  obtain ⟨m, hm, -⟩ := h.parent_live ⟨n, hx, hp⟩
  exact ⟨m, hm⟩

def AllLive (a : Arena) (xs : List NodeId) : Prop := ∀ x ∈ xs, ∃ n, a.find? x = some n

theorem AllLive.head? (hxs : a.AllLive xs) : ∀ x ∈ xs.head?, ∃ n, a.find? x = some n :=
  fun x hx => hxs x (List.mem_of_mem_head? hx)

theorem AllLive.getLast? (hxs : a.AllLive xs) : ∀ x ∈ xs.getLast?, ∃ n, a.find? x = some n :=
  fun x hx => hxs x (List.mem_of_getLast? hx)

end Arena

open Arena (AllLive Known)

namespace Yields

theorem element (hx : a.Known given x) :
    FailsDueTo a given (a.element x) := by
  refine (Yields.get hx).bind fun n _ => ?_
  cases n.element? with
  | some e => exact .ok trivial
  | none => exact .error trivial

theorem attributes (hx : a.Known given x) :
    FailsDueTo a given (a.attributes x) :=
  (element hx).andReturn

theorem localName (hx : a.Known given x) :
    FailsDueTo a given (a.localName x) :=
  (element hx).andReturn

theorem commentText (hx : a.Known given x) :
    FailsDueTo a given (a.commentText x) := by
  refine (Yields.get hx).bind fun n _ => ?_
  cases n.comment? with
  | some s => exact .ok trivial
  | none => exact .error trivial

theorem expectDocument (hx : a.Known given x) :
    FailsDueTo a given (a.expectDocument x) := by
  refine (Yields.get hx).bind fun n _ => ?_
  cases n.isDocument with
  | true => exact .ok trivial
  | false => exact .error trivial

theorem elementsOf (hxs : ∀ x ∈ xs, a.Known given x) :
    Yields (Error.DueTo a given) (AllLive a) (a.elementsOf xs) := by
  induction xs with
  | nil => exact nofun
  | cons x xs ih =>
    refine (Yields.get (hxs x List.mem_cons_self)).bind fun n hn => ?_
    refine (ih fun y hy => hxs y (List.mem_cons_of_mem x hy)).bind fun ys hys => .ok ?_
    split
    · exact fun y hy => (List.mem_cons.1 hy).elim (fun heq => heq ▸ ⟨n, hn⟩) (hys y)
    · exact hys

theorem firstElement (hxs : ∀ x ∈ xs, a.Known given x) :
    Yields (Error.DueTo a given) (fun o => ∀ y ∈ o, ∃ m, a.find? y = some m)
      (a.firstElement xs) := by
  induction xs with
  | nil => exact nofun
  | cons x xs ih =>
    refine (Yields.get (hxs x List.mem_cons_self)).bind fun n hn => ?_
    split
    · exact .ok fun y hy => Option.some.inj hy ▸ ⟨n, hn⟩
    · exact ih fun y hy => hxs y (List.mem_cons_of_mem x hy)

theorem climb {next : NodeId → Except Error (Option NodeId)}
    (hnext : ∀ {y}, a.Known given y →
      Yields (Error.DueTo a given) (fun o => ∀ p ∈ o, ∃ m, a.find? p = some m) (next y))
    (fuel : Nat) (hx : a.Known given x) :
    Yields (Error.DueTo a given) (AllLive a) (Arena.climb next fuel x) := by
  induction fuel generalizing x with
  | zero => exact nofun
  | succ fuel ih =>
    refine (hnext hx).bind fun o ho => ?_
    cases o with
    | none => exact nofun
    | some y =>
      have hy := ho y rfl
      refine (ih (.inr hy)).bind fun ys hys => .ok ?_
      exact fun z hz => (List.mem_cons.1 hz).elim (fun heq => heq ▸ hy) (hys z)

variable (h : a.Forest)
include h

theorem childNodes (hx : a.Known given x) :
    Yields (Error.DueTo a given) (AllLive a) (a.childNodes x) :=
  (Yields.get hx).bind fun _ hn => .ok (h.child_live hn)

theorem children (hx : a.Known given x) :
    Yields (Error.DueTo a given) (AllLive a) (a.children x) :=
  (Yields.get hx).bind fun _ hn => elementsOf fun c hc => .inr (h.child_live hn c hc)

theorem parent (hx : a.Known given x) :
    Yields (Error.DueTo a given) (fun o => ∀ p ∈ o, ∃ m, a.find? p = some m) (a.parent x) :=
  (Yields.get hx).bind fun _ hn => .ok (h.live_of_mem_parent hn)

theorem parentElement (hx : a.Known given x) :
    Yields (Error.DueTo a given) (fun o => ∀ p ∈ o, ∃ m, a.find? p = some m)
      (a.parentElement x) := by
  refine (Yields.get hx).bind fun n hn => ?_
  have hlive := h.live_of_mem_parent hn
  cases hp : n.parent with
  | none => exact nofun
  | some p =>
    refine (Yields.get (.inr (hlive p hp))).bind fun m hm => .ok ?_
    split
    · rintro _ ⟨⟩
      exact ⟨m, hm⟩
    · exact nofun

theorem around (hx : a.Known given x) :
    Yields (Error.DueTo a given) (fun r => AllLive a r.1 ∧ AllLive a r.2) (a.around x) := by
  refine (Yields.get hx).bind fun n hn => ?_
  have hlive := h.live_of_mem_parent hn
  cases hp : n.parent with
  | none => exact ⟨nofun, nofun⟩
  | some p =>
    refine (Yields.get (.inr (hlive p hp))).bind fun m hm => ?_
    have hsiblings := h.child_live hm
    dsimp only
    cases m.children.idxOf? x with
    | none => exact ⟨nofun, nofun⟩
    | some i =>
      exact ⟨fun y hy => hsiblings y (List.mem_of_mem_take (List.mem_reverse.1 hy)),
        fun y hy => hsiblings y (List.mem_of_mem_drop hy)⟩

theorem earlierElements (hx : a.Known given x) :
    Yields (Error.DueTo a given) (AllLive a) (a.earlierElements x) :=
  (around h hx).bind fun _ hr => elementsOf fun y hy => .inr (hr.1 y hy)

theorem laterElements (hx : a.Known given x) :
    Yields (Error.DueTo a given) (AllLive a) (a.laterElements x) :=
  (around h hx).bind fun _ hr => elementsOf fun y hy => .inr (hr.2 y hy)

theorem previousElementSibling (hx : a.Known given x) :
    FailsDueTo a given (a.previousElementSibling x) :=
  (earlierElements h hx).andReturn

theorem nextElementSibling (hx : a.Known given x) :
    FailsDueTo a given (a.nextElementSibling x) :=
  (laterElements h hx).andReturn

theorem siblingElements (hx : a.Known given x) :
    Yields (Error.DueTo a given) (AllLive a) (a.siblingElements x) := by
  refine (Yields.get hx).bind fun n hn => ?_
  have hlive := h.live_of_mem_parent hn
  cases hp : n.parent with
  | none => exact nofun
  | some p =>
    refine (Yields.get (.inr (hlive p hp))).bind fun m _ => ?_
    split
    · exact children h (.inr (hlive p hp))
    · exact nofun

theorem ancestors (hx : a.Known given x) :
    Yields (Error.DueTo a given) (AllLive a) (a.ancestors x) :=
  climb (parent h) _ hx

theorem ancestorElements (hx : a.Known given x) :
    Yields (Error.DueTo a given) (AllLive a) (a.ancestorElements x) :=
  climb (parentElement h) _ hx

theorem root (hx : a.Known given x) :
    Yields (Error.DueTo a given) (fun r => ∃ m, a.find? r = some m) (a.root x) := by
  cases hn : a.find? x with
  | none =>
    have herror : a.root x = .error (.unknownNode x) := by
      simp [Arena.root, Arena.ancestors, Arena.climb, Arena.parent, Arena.get_eq_error hn]
    rw [herror]
    exact .error ⟨hx.resolve_right (by simp [hn]), hn⟩
  | some n =>
    refine (ancestors h hx).bind fun ys hys => .ok ?_
    cases hlast : ys.getLast? with
    | none => exact ⟨n, hn⟩
    | some r => exact hys r (List.mem_of_getLast? hlast)

theorem isConnected (hx : a.Known given x) :
    FailsDueTo a given (a.isConnected x) :=
  (root h hx).bind fun _ hr => (Yields.get (.inr hr)).andReturn

theorem contains (hx : a.Known given x) (hy : a.Known given y) :
    FailsDueTo a given (a.contains x y) :=
  (Yields.get hx).bind fun _ _ => (ancestors h hy).andReturn

theorem childElementCount (hx : a.Known given x) :
    FailsDueTo a given (a.childElementCount x) :=
  (children h hx).andReturn

theorem firstChildElement (hx : a.Known given x) :
    Yields (Error.DueTo a given) (fun o => ∀ y ∈ o, ∃ m, a.find? y = some m)
      (a.firstChildElement x) :=
  (Yields.get hx).bind fun _ hn => firstElement fun c hc => .inr (h.child_live hn c hc)

theorem lastChildElement (hx : a.Known given x) :
    Yields (Error.DueTo a given) (fun o => ∀ y ∈ o, ∃ m, a.find? y = some m)
      (a.lastChildElement x) :=
  (Yields.get hx).bind fun _ hn => firstElement fun c hc =>
    .inr (h.child_live hn c (List.mem_reverse.1 hc))

theorem preorder (hx : a.Known given x) :
    Yields (Error.DueTo a given) (AllLive a) (a.preorder x) := by
  refine Yields.run (I := a.Known given) (fun y hy => ?_) _ (by simpa using hx)
  refine (Yields.get hy).bind fun n hn => .ok ⟨?_, fun c hc => .inr (h.child_live hn c hc)⟩
  exact fun z hz => (List.mem_singleton.1 hz) ▸ ⟨n, hn⟩

theorem descendants (hx : a.Known given x) :
    Yields (Error.DueTo a given) (AllLive a) (a.descendants x) :=
  (preorder h hx).bind fun _ hys => .ok fun y hy => hys y (List.mem_of_mem_filter hy)

theorem compare {p : NodeId × NodeId} (hp : a.Known given p.1 ∧ a.Known given p.2) :
    Yields (Error.DueTo a given)
      (fun r => (∀ o ∈ r.1, True) ∧ ∀ q ∈ r.2, a.Known given q.1 ∧ a.Known given q.2)
      (a.compare p) := by
  refine (Yields.get hp.1).bind fun m hm => ?_
  split
  · exact ⟨nofun, nofun⟩
  refine (Yields.get hp.2).bind fun n hn => ?_
  split
  · refine .ok ⟨fun _ _ => trivial, fun q hq => ?_⟩
    obtain ⟨hleft, hright⟩ := List.of_mem_zip hq
    exact ⟨.inr (h.child_live hm _ hleft), .inr (h.child_live hn _ hright)⟩
  · exact ⟨fun _ _ => trivial, nofun⟩

theorem isEqual (hx : a.Known given x) (hy : a.Known given y) :
    FailsDueTo a given (a.isEqual x y) := by
  refine (Yields.run (I := fun p => a.Known given p.1 ∧ a.Known given p.2)
    (fun p hp => compare h hp) _ ?_).andReturn
  simpa using ⟨hx, hy⟩

theorem traverse (hx : a.Known given x) (visit : Node → EStateM Error σ Unit) :
    RunYields (fun e => e.DueTo a given ∨
      ∃ y n s t, a.find? y = some n ∧ (visit n).run s = .error e t) (fun _ => True)
      (a.traverse x visit) := by
  refine (RunYields.lift ((preorder h hx).mono (fun _ => id) fun _ => .inl)).bind fun ys hys => ?_
  refine RunYields.forM fun y hy => ?_
  refine (RunYields.lift ((Yields.get (.inr (hys y hy))).mono (fun _ => id) fun _ => .inl)).bind
    fun n hn s => ?_
  cases hrun : (visit n).run s with
  | ok v t => trivial
  | error e t => exact .inr ⟨y, n, s, t, hn, hrun⟩

end Yields

end DocTree
