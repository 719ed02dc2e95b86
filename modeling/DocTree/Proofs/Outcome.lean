import DocTree.Arena.Worklist
import DocTree.Error

namespace DocTree

@[simp] theorem ok_bind (v : α) (f : α → Except ε β) : (Except.ok v >>= f) = f v := rfl

@[simp] theorem error_bind (e : ε) (f : α → Except ε β) :
    (Except.error e >>= f) = .error e := rfl

@[simp] theorem pure_eq_ok (v : α) : (pure v : Except ε α) = .ok v := rfl

@[simp] theorem throw_eq_error (e : ε) : (throw e : Except ε α) = .error e := rfl

theorem bind_eq_ok_iff {x : Except ε α} {f : α → Except ε β} {v : β} :
    (x >>= f) = .ok v ↔ ∃ u, x = .ok u ∧ f u = .ok v := by
  cases x <;> simp

theorem mapM_cons_ok {f : α → Except ε β} {x : α} {y : β} {xs : List α} {ys : List β}
    (hx : f x = .ok y) (hxs : xs.mapM f = .ok ys) : (x :: xs).mapM f = .ok (y :: ys) := by
  rw [List.mapM_cons, hx, hxs]
  rfl

theorem mapM_eq_ok {f : α → Except ε β} {g : α → β} {xs : List α}
    (h : ∀ x ∈ xs, f x = .ok (g x)) : xs.mapM f = .ok (xs.map g) := by
  induction xs with
  | nil => rfl
  | cons x xs ih =>
    obtain ⟨hx, hxs⟩ := List.forall_mem_cons.1 h
    exact mapM_cons_ok hx (ih hxs)

theorem exists_of_mapM_eq_ok {f : α → Except ε β} {xs : List α} {ys : List β}
    (h : xs.mapM f = .ok ys) : ∀ x ∈ xs, ∃ y, f x = .ok y := by
  induction xs generalizing ys with
  | nil => exact nofun
  | cons x xs ih =>
    rw [List.mapM_cons] at h
    obtain ⟨y, hy, hrest⟩ := bind_eq_ok_iff.1 h
    obtain ⟨_, hys, -⟩ := bind_eq_ok_iff.1 hrest
    exact List.forall_mem_cons.2 ⟨⟨y, hy⟩, ih hys⟩

@[simp] theorem run_fail (e : ε) (s : σ) :
    EStateM.run (throw e : EStateM ε σ α) s = .error e s := rfl

@[simp] theorem run_map (f : α → β) (x : EStateM ε σ α) (s : σ) :
    EStateM.run (f <$> x) s = match EStateM.run x s with
      | .ok v s => .ok (f v) s
      | .error e s => .error e s := by
  change EStateM.map f x s = _
  rw [EStateM.map, EStateM.run]
  cases x s <;> rfl

theorem exists_of_run_return {x : EStateM ε σ α} {f : α → β} {s t : σ} {v : β}
    (h : EStateM.run (do return f (← x)) s = .ok v t) : ∃ u, x.run s = .ok u t ∧ f u = v := by
  rw [bind_pure_comp, run_map] at h
  cases hx : x.run s with
  | ok u s' =>
    rw [hx] at h
    cases h
    exact ⟨u, rfl, rfl⟩
  | error e s' =>
    rw [hx] at h
    cases h

theorem discard_return [Monad m] [LawfulMonad m] (x : m α) (f : α → β) :
    (discard (do return f (← x)) : m PUnit) = discard x := by
  simp [discard, map_const]

theorem Worklist.run_cons_ok {step : ι → Except ε (List ω × List ι)} {fuel : Nat} {x : ι}
    {rest more : List ι} {out ys : List ω} (hstep : step x = .ok (out, more))
    (hrest : run step fuel (more ++ rest) = .ok ys) :
    run step (fuel + 1) (x :: rest) = .ok (out ++ ys) := by
  rw [run_cons, hstep]
  change (do return out ++ (← run step fuel (more ++ rest))) = _
  rw [hrest]
  rfl

theorem Worklist.run_cons_run {step : ι → EStateM ε σ (List ω × List ι)} {fuel : Nat} {x : ι}
    {rest more : List ι} {out ys : List ω} {s s₁ s₂ : σ}
    (hstep : (step x).run s = .ok (out, more) s₁)
    (hrest : (run step fuel (more ++ rest)).run s₁ = .ok ys s₂) :
    (run step (fuel + 1) (x :: rest)).run s = .ok (out ++ ys) s₂ := by
  rw [run_cons, EStateM.run_bind, hstep]
  change EStateM.run (do return out ++ (← run step fuel (more ++ rest))) s₁ = _
  rw [EStateM.run_bind, hrest]
  rfl

/-- The answer is given, and it tells whether `P`. -/
def Decides (e : Except ε Bool) (P : Prop) : Prop := ∃ b, e = .ok b ∧ (b = true ↔ P)

theorem Decides.eq_true_iff {e : Except ε Bool} {P : Prop} (h : Decides e P) :
    e = .ok true ↔ P := by
  obtain ⟨b, rfl, hb⟩ := h
  rw [Except.ok.injEq, hb]

theorem Decides.eq {e f : Except ε Bool} {P : Prop} (he : Decides e P) (hf : Decides f P) :
    e = f := by
  obtain ⟨b, rfl, hb⟩ := he
  obtain ⟨b', rfl, hb'⟩ := hf
  rw [Bool.eq_iff_iff.2 (hb.trans hb'.symm)]

end DocTree
