import CanonIR.Binding.Operation

/-!
Operations as actions: what an operation does that runs with nothing between its steps.
-/

namespace CanonIR.Operation

variable {σ α β : Type} [NativeSystem σ] {w : World σ}

theorem apply_bind (op : Operation α) (f : α → Operation β) :
    (op >>= f).action.apply w =
      match op.action.apply w with
      | (.ok x, w) => (f x).action.apply w
      | (.error e, w) => (.error e, w) := by
  induction op generalizing w with
  | done x => cases x <;> rfl
  | step a next ih => exact ih _

theorem apply_map (f : α → β) (op : Operation α) :
    (f <$> op).action.apply w =
      match op.action.apply w with
      | (.ok x, w) => (.ok (f x), w)
      | (.error e, w) => (.error e, w) :=
  apply_bind op (pure ∘ f)

/-- A step that succeeds leads on to the rest. -/
theorem apply_bind_of_ok {op : Operation α} {f : α → Operation β} {x : α} {w' : World σ}
    (h : op.action.apply w = (.ok x, w')) :
    (op >>= f).action.apply w = (f x).action.apply w' := by
  rw [apply_bind, h]

/-- Giving a reference up never fails, so what is released on the way leaves the outcome alone. -/
theorem apply_releasing (r : Reference) (op : Operation α) :
    (releasing r op).action.apply w =
      ((op.action.apply w).1, (op.action.apply w).2.release r) := by
  induction op generalizing w with
  | done x => rfl
  | step a next ih => exact ih _

theorem apply_orRelease (r : Reference) (op : Operation α) :
    (orRelease r op).action.apply w =
      match op.action.apply w with
      | (.ok x, w) => (.ok x, w)
      | (.error e, w) => (.error e, w.release r) := by
  induction op generalizing w with
  | done x => cases x <;> rfl
  | step a next ih => exact ih _

/-- Every primitive on the way of an operation meets a condition on the libraries that it finds. -/
def Along (P : σ → Primitive → Prop) : Operation α → World σ → Prop
  | done _, _ => True
  | step a next, w => P w.native a ∧ (next (a.action.apply w).1).Along P (a.action.apply w).2

end CanonIR.Operation
