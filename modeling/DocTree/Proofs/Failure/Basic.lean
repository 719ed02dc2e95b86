import DocTree.Proofs.Arena.Siblings

/-! What a failure may come from.  A computation that starts from given numbers and follows links of
a sound arena misses no node but one of the given. -/

namespace DocTree

/-- A node that is missed is one of the given and not live, and no node lacks a document. -/
def Error.DueTo (a : Arena) (given : List NodeId) : Error → Prop
  | .unknownNode k => k ∈ given ∧ a.find? k = none
  | .noDocument _ => False
  | _ => True

/-- The number is given or leads to a node. -/
def Arena.Known (a : Arena) (given : List NodeId) (x : NodeId) : Prop :=
  x ∈ given ∨ ∃ n, a.find? x = some n

def Yields (E : Error → Prop) (P : α → Prop) : Except Error α → Prop
  | .ok v => P v
  | .error e => E e

def RunYields (E : Error → Prop) (P : α → Prop) (m : EStateM Error σ α) : Prop :=
  ∀ s, match m.run s with
    | .ok v _ => P v
    | .error e _ => E e

abbrev FailsDueTo (a : Arena) (given : List NodeId) (m : Except Error α) : Prop :=
  Yields (Error.DueTo a given) (fun _ => True) m

abbrev RunFailsDueTo (a : Arena) (given : List NodeId) (m : EStateM Error σ α) : Prop :=
  RunYields (Error.DueTo a given) (fun _ => True) m

variable {a : Arena} {given : List NodeId} {x : NodeId} {E F : Error → Prop}

namespace Yields

variable {P Q : α → Prop} {m : Except Error α} {v : α} {e : Error}

theorem ok (h : P v) : Yields E P (.ok v) := h

theorem error (h : E e) : Yields E P (.error e) := h

theorem bind {f : α → Except Error β} {R : β → Prop} (hm : Yields E P m)
    (hf : ∀ v, P v → Yields E R (f v)) : Yields E R (m >>= f) := by
  cases m with
  | ok v => exact hf v hm
  | error e => exact hm

theorem mono (hm : Yields E P m) (hP : ∀ v, P v → Q v) (hE : ∀ e, E e → F e) : Yields F Q m := by
  cases m with
  | ok v => exact hP v hm
  | error e => exact hE e hm

theorem andReturn {f : α → β} (hm : Yields E P m) :
    Yields E (fun _ => True) (m >>= fun v => .ok (f v)) :=
  hm.bind fun _ _ => .ok trivial

theorem discard (hm : Yields E P m) : Yields E (fun _ => True) (discard m) := by
  cases m with
  | ok v => exact .ok trivial
  | error e => exact hm

theorem get (hx : a.Known given x) :
    Yields (Error.DueTo a given) (fun n => a.find? x = some n) (a.get x) := by
  cases h : a.find? x with
  | some n =>
    rw [Arena.get_eq_ok h]
    exact rfl
  | none =>
    rw [Arena.get_eq_error h]
    exact ⟨hx.resolve_right (by simp [h]), h⟩

theorem run {step : ι → Except Error (List ω × List ι)} {I : ι → Prop} {R : ω → Prop}
    (hstep : ∀ i, I i → Yields E (fun r => (∀ o ∈ r.1, R o) ∧ ∀ j ∈ r.2, I j) (step i))
    (fuel : Nat) {items : List ι} (hitems : ∀ i ∈ items, I i) :
    Yields E (fun out => ∀ o ∈ out, R o) (Worklist.run step fuel items) := by
  induction fuel generalizing items with
  | zero =>
    cases items <;> exact nofun
  | succ fuel ih =>
    cases items with
    | nil => exact nofun
    | cons i rest =>
      rw [Worklist.run_cons]
      refine (hstep i (hitems i List.mem_cons_self)).bind fun r hr => ?_
      have hnext : ∀ j ∈ r.2 ++ rest, I j := fun j hj =>
        (List.mem_append.1 hj).elim (hr.2 j) fun hj => hitems j (List.mem_cons_of_mem i hj)
      refine (ih hnext).bind fun out hout => .ok ?_
      exact fun o ho => (List.mem_append.1 ho).elim (hr.1 o) (hout o)

theorem forM {f : ι → Except Error Unit} {xs : List ι}
    (hf : ∀ i ∈ xs, Yields E (fun _ => True) (f i)) : Yields E (fun _ => True) (xs.forM f) := by
  induction xs with
  | nil => exact trivial
  | cons i xs ih =>
    exact (hf i List.mem_cons_self).bind fun _ _ =>
      ih fun j hj => hf j (List.mem_cons_of_mem i hj)

theorem mapM {f : ι → Except Error α} {xs : List ι} (hf : ∀ i ∈ xs, Yields E P (f i)) :
    Yields E (fun vs => ∀ v ∈ vs, P v) (xs.mapM f) := by
  induction xs with
  | nil => exact nofun
  | cons i xs ih =>
    rw [List.mapM_cons]
    exact (hf i List.mem_cons_self).bind fun _ hv =>
      (ih fun j hj => hf j (List.mem_cons_of_mem i hj)).bind fun _ hvs =>
        .ok (List.forall_mem_cons.2 ⟨hv, hvs⟩)

end Yields

namespace RunYields

variable {P : α → Prop} {m : EStateM Error σ α} {v : α}

theorem ok (h : P v) : RunYields E P (pure v : EStateM Error σ α) := fun _ => h

theorem lift {e : Except Error α} (h : Yields E P e) :
    RunYields E P (liftM e : EStateM Error σ α) := by
  intro s
  cases e with
  | ok v => exact h
  | error e => exact h

theorem bind {f : α → EStateM Error σ β} {R : β → Prop} (hm : RunYields E P m)
    (hf : ∀ v, P v → RunYields E R (f v)) : RunYields E R (m >>= f) := by
  intro s
  have h := hm s
  rw [EStateM.run_bind]
  cases hrun : m.run s with
  | ok v s' =>
    rw [hrun] at h
    exact hf v h s'
  | error e s' =>
    rw [hrun] at h
    exact h

theorem forM {f : ι → EStateM Error σ Unit} {xs : List ι}
    (hf : ∀ i ∈ xs, RunYields E (fun _ => True) (f i)) :
    RunYields E (fun _ => True) (xs.forM f) := by
  induction xs with
  | nil => exact fun _ => trivial
  | cons i xs ih =>
    exact (hf i List.mem_cons_self).bind fun _ _ =>
      ih fun j hj => hf j (List.mem_cons_of_mem i hj)

end RunYields

end DocTree
