namespace DocTree.Worklist

/-- The outputs of the steps, in order.  Each step yields its outputs and the items it puts in front
of the rest; `fuel` bounds the number of steps. -/
def run [Monad m] (step : ι → m (List ω × List ι)) : Nat → List ι → m (List ω)
  | _, [] => pure []
  | 0, _ :: _ => pure []
  | fuel + 1, x :: rest => do
    let (out, more) ← step x
    return out ++ (← run step fuel (more ++ rest))

@[simp] theorem run_nil [Monad m] (step : ι → m (List ω × List ι)) (fuel : Nat) :
    run step fuel [] = pure [] := by
  cases fuel <;> rfl

theorem run_cons [Monad m] (step : ι → m (List ω × List ι)) (fuel : Nat) (x : ι) (rest : List ι) :
    run step (fuel + 1) (x :: rest) = (do
      let (out, more) ← step x
      return out ++ (← run step fuel (more ++ rest))) := rfl

end DocTree.Worklist
