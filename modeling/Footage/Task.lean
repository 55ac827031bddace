/-!
# Tasks

A task works on a state and ends with a value or with an error. What it has done to the state stays
done when it ends with an error.
-/

namespace Footage

/-- A task on a state `σ` that may end with an error `ε`. -/
abbrev Task (σ ε : Type) := ExceptT ε (StateM σ)

namespace Task

variable {σ ε α β : Type}

theorem pure_apply (a : α) (s : σ) : (pure a : Task σ ε α) s = (.ok a, s) := rfl

theorem throw_apply (e : ε) (s : σ) : (throw e : Task σ ε α) s = (.error e, s) := rfl

theorem bind_apply (t : Task σ ε α) (f : α → Task σ ε β) (s : σ) :
    (t >>= f) s = match t s with
      | (.ok a, s) => f a s
      | (.error e, s) => (.error e, s) := by
  show (match t s with | (r, s) => ExceptT.bindCont f r s) = _
  obtain ⟨r, s⟩ := t s
  cases r <;> rfl

end Task

end Footage
