import Footage.Listing
import Footage.Proofs.Rollup.History
import Footage.Proofs.Store.Reads

/-!
# A store that fails within a page

A page of a listing takes a number of range reads that depends on what is stored, and the store may fail at
any of them. `Breaks` says of a task how it ends if the reads from some number on fail: as without the
fault if all its reads come before, and otherwise with the fault of the first read that fails. What is
known of the parts of a task carries over to the whole (`Breaks.bind`), so it has to be shown of a single
range read alone, and then of the two reading loops by induction on the number of reads.

The number of that read is kept as the sum of two counts, at whose size nothing looks. So a store lets the
reads through that it is to let through where the sum is a count, and none where it is not (`Memory.allowed`).
-/

namespace Footage

namespace Task

variable {σ ε α β : Type} {sound failing : Nat → σ} {limit : Nat} {fault : ε}

/-- From the states `sound k`, after `k` reads, the task gives one answer after one number of reads. From the
states `failing k` it does so up to `limit` reads, and otherwise ends with the fault. -/
def Breaks (sound failing : Nat → σ) (limit : Nat) (fault : ε) (t : Task σ ε α) : Prop :=
  ∃ answer reads, ∀ k, t (sound k) = (answer, sound (k + reads)) ∧
    (k ≤ limit → t (failing k) = if k + reads ≤ limit then (answer, failing (k + reads))
      else (.error fault, failing (limit + 1)))

/-- A task that neither reads nor looks at the state. -/
theorem Breaks.of_const {t : Task σ ε α} (answer : Except ε α) (h : ∀ s, t s = (answer, s)) :
    Breaks sound failing limit fault t :=
  ⟨answer, 0, fun _ => ⟨h _, fun hk => (h _).trans (if_pos hk).symm⟩⟩

theorem Breaks.pure (a : α) : Breaks sound failing limit fault (pure a : Task σ ε α) :=
  .of_const (.ok a) fun _ => rfl

theorem Breaks.throw (e : ε) : Breaks sound failing limit fault (throw e : Task σ ε α) :=
  .of_const (.error e) fun _ => rfl

theorem Breaks.bind {t : Task σ ε α} {f : α → Task σ ε β} (h : Breaks sound failing limit fault t)
    (hf : ∀ a, Breaks sound failing limit fault (f a)) :
    Breaks sound failing limit fault (t >>= f) := by
  obtain ⟨answer, reads, h⟩ := h
  cases answer with
  | error e =>
    refine ⟨.error e, reads, fun k => ⟨?_, fun hk => ?_⟩⟩
    · rw [bind_apply, (h k).1]
    · rw [bind_apply, (h k).2 hk]
      by_cases hle : k + reads ≤ limit
      · rw [if_pos hle, if_pos hle]
      · rw [if_neg hle, if_neg hle]
  | ok a =>
    obtain ⟨answer, more, hf⟩ := hf a
    refine ⟨answer, reads + more, fun k => ⟨?_, fun hk => ?_⟩⟩
    · rw [bind_apply, (h k).1, ← Nat.add_assoc]
      exact (hf (k + reads)).1
    · rw [bind_apply, (h k).2 hk, ← Nat.add_assoc]
      by_cases hle : k + reads ≤ limit
      · rw [if_pos hle]
        exact (hf (k + reads)).2 hle
      · rw [if_neg hle, if_neg (by omega)]

end Task

open Footage.Task

/-! ## Reads of a store in memory -/

namespace Memory

variable {m : Memory} {n k : Nat}

end Memory

/-! ## Work at a desk -/

namespace Desk

variable {α : Type} {sound failing : Nat → Memory} {limit : Nat} {e : StoreError} {clock : Clock}

end Desk

/-! ## A page -/

namespace Listing

open Desk

variable {m : Memory} {n : Nat} {clock : Clock} {form : Int → Gathered → Except AttributeError PeriodPage}
  {p : Paging} {r : Request} {answer : Except Failure PeriodPage}

end Listing

end Footage
