import DocTree.Proofs.Arena.InPlace
import DocTree.Selector.Matching

namespace DocTree

abbrev Truth := Nat → NodeId → Prop

def Memo.Sound (memo : Memo) (t : Truth) : Prop :=
  ∀ x k b, memo[(x, k)]? = some b → (b = true ↔ t k x)

theorem Memo.sound_empty (t : Truth) : Memo.Sound ∅ t := by
  intro x k b h
  simp at h

theorem Memo.Sound.insert {memo : Memo} {t : Truth} {x : NodeId} {k : Nat} {b : Bool}
    (h : memo.Sound t) (hb : b = true ↔ t k x) : Memo.Sound (memo.insert (x, k) b) t := by
  intro y j c hc
  rw [Memo.getElem?_insert] at hc
  split at hc
  next heq =>
    cases heq
    cases hc
    exact hb
  next => exact h y j c hc

namespace Matcher

/-- The question is answered, and the answer is yes if and only if `P`. -/
def Answers (t : Truth) (m : Matcher Bool) (P : Prop) : Prop :=
  ∀ memo : Memo, memo.Sound t →
    ∃ b memo', m.run memo = .ok b memo' ∧ memo'.Sound t ∧ (b = true ↔ P)

variable {t : Truth} {m l r : Matcher Bool} {P Q : Prop} {b : Bool} {x : NodeId} {k : Nat}

theorem Answers.congr (h : Answers t m P) (hpq : P ↔ Q) : Answers t m Q := by
  intro memo hmemo
  obtain ⟨b, memo', hrun, hsound, hb⟩ := h memo hmemo
  exact ⟨b, memo', hrun, hsound, hb.trans hpq⟩

theorem answers_pure (h : b = true ↔ P) : Answers t (pure b) P :=
  fun memo hmemo => ⟨b, memo, rfl, hmemo, h⟩

theorem answers_lift {e : Except Error Bool} (h : Decides e P) : Answers t (liftM e) P := by
  obtain ⟨b, rfl, hb⟩ := h
  exact fun memo hmemo => ⟨b, memo, by simp, hmemo, hb⟩

theorem answers_bind_lift {e : Except Error β} {v : β} {f : β → Matcher Bool} (he : e = .ok v)
    (hf : Answers t (f v) P) : Answers t (liftM e >>= f) P := by
  intro memo hmemo
  obtain ⟨b, memo', hrun, hsound, hb⟩ := hf memo hmemo
  exact ⟨b, memo', by simpa [he] using hrun, hsound, hb⟩

theorem answers_ite (hm : Answers t m P) (hl : P → Answers t l Q) (hr : ¬ P → Answers t r Q) :
    Answers t (do if ← m then l else r) Q := by
  intro memo hmemo
  obtain ⟨b, memo₁, hrun, hsound, hb⟩ := hm memo hmemo
  cases b with
  | true =>
    obtain ⟨c, memo₂, hrun₂, hrest⟩ := hl (hb.1 rfl) memo₁ hsound
    exact ⟨c, memo₂, by simpa [hrun] using hrun₂, hrest⟩
  | false =>
    obtain ⟨c, memo₂, hrun₂, hrest⟩ := hr (fun hp => Bool.false_ne_true (hb.2 hp)) memo₁ hsound
    exact ⟨c, memo₂, by simpa [hrun] using hrun₂, hrest⟩

theorem answers_and (hm : Answers t m P) (hl : P → Answers t l Q) :
    Answers t (do if ← m then l else return false) (P ∧ Q) := by
  apply answers_ite hm
  · exact fun hp => (hl hp).congr (iff_and_self.2 fun _ => hp)
  · exact fun hp => answers_pure (by simp [hp])

theorem answers_or (hm : Answers t m P) (hr : ¬ P → Answers t r Q) :
    Answers t (do if ← m then return true else r) (P ∨ Q) := by
  apply answers_ite hm
  · exact fun hp => answers_pure (by simp [hp])
  · exact fun hp => (hr hp).congr (by simp [hp])

theorem answers_remember {P : NodeId → Prop} (hk : t k = P) (hm : Answers t m (P x)) :
    Answers t (remember x k m) (P x) := by
  subst hk
  intro memo hmemo
  cases hknown : memo[(x, k)]? with
  | some b =>
    refine ⟨b, memo, ?_, hmemo, hmemo x k b hknown⟩
    simp [remember, hknown]
  | none =>
    obtain ⟨b, memo', hrun, hsound, hb⟩ := hm memo hmemo
    refine ⟨b, memo'.insert (x, k) b, ?_, hsound.insert hb, hb⟩
    simp [remember, hknown, hrun]

theorem answers_any {p : NodeId → Matcher Bool} {P : NodeId → Prop} {ys : List NodeId}
    (hp : ∀ y ∈ ys, Answers t (p y) (P y)) : Answers t (any p ys) (∃ y ∈ ys, P y) := by
  induction ys with
  | nil => exact answers_pure (by simp)
  | cons y ys ih =>
    have hy := hp y (by simp)
    have hrest := ih fun z hz => hp z (List.mem_cons_of_mem _ hz)
    exact (answers_or hy fun _ => hrest).congr (by simp)

theorem answers_anyAlong {next : NodeId → Except Error (Option NodeId)} {p : NodeId → Matcher Bool}
    {P : NodeId → Prop} {ys : List NodeId} {fuel : Nat} (h : Arena.climb next fuel x = .ok ys)
    (hp : ∀ y ∈ ys, Answers t (p y) (P y)) :
    Answers t (anyAlong next p fuel x) (∃ y ∈ ys, P y) := by
  rw [anyAlong_eq_any p h]
  exact answers_any hp

theorem answers_onElement {a : Arena} {n : Node} {p : Element → Matcher Bool} {P : Prop}
    (hx : a.find? x = some n) (hp : ∀ e, n.data = .element e → Answers t (p e) P) :
    Answers t (onElement a x p) (n.isElement = true ∧ P) := by
  apply answers_bind_lift (Arena.get_eq_ok hx)
  cases hn : n.data with
  | element e =>
    have helement : n.element? = some e := by simp [Node.element?, hn]
    have hkind : n.isElement = true := by simp [Node.isElement, Node.kind, NodeData.kind, hn]
    rw [helement]
    exact (hp e hn).congr (by simp [hkind])
  | _ =>
    have helement : n.element? = none := by simp [Node.element?, hn]
    have hkind : n.isElement = false := by simp [Node.isElement, Node.kind, NodeData.kind, hn]
    rw [helement]
    exact answers_pure (by simp [hkind])

end Matcher

end DocTree
