import Footage.Desk

/-!
# Tasks that end alike

Two tasks, each on states of its own kind, end alike if from states that correspond they give the same
answer and leave states that correspond again. What tasks are put together from carries this over to the
whole (`Alike.bind`), so it has to be shown of the calls of a store alone: two stores that end alike on a
partition (`Backend.Alike`) answer every request for that partition alike.
-/

namespace Footage

namespace Task

variable {σ τ ε α β : Type} {R : σ → τ → Prop}

/-- From states that correspond both tasks give the same value or error, and leave such states. -/
def Alike (R : σ → τ → Prop) (t : Task σ ε α) (u : Task τ ε α) : Prop :=
  ∀ s s', R s s' → (t s).1 = (u s').1 ∧ R (t s).2 (u s').2

theorem Alike.pure (a : α) : Alike R (pure a : Task σ ε α) (pure a) := fun _ _ h => ⟨rfl, h⟩

theorem Alike.throw (e : ε) : Alike R (throw e : Task σ ε α) (throw e) := fun _ _ h => ⟨rfl, h⟩

/-- What is known of every value of the first part may be used for the rest. -/
theorem Alike.bind_of {t : Task σ ε α} {u : Task τ ε α} {f : α → Task σ ε β} {g : α → Task τ ε β}
    {Q : α → Prop} (h : Alike R t u) (hQ : ∀ s a, (t s).1 = .ok a → Q a)
    (hf : ∀ a, Q a → Alike R (f a) (g a)) : Alike R (t >>= f) (u >>= g) := by
  intro s s' hs
  obtain ⟨heq, hR⟩ := h s s' hs
  rw [bind_apply, bind_apply]
  rcases ht : t s with ⟨r, s₁⟩
  rcases hu : u s' with ⟨r', s₁'⟩
  rw [ht, hu] at heq hR
  obtain rfl : r = r' := heq
  cases r with
  | ok a => exact hf a (hQ s a (congrArg Prod.fst ht)) s₁ s₁' hR
  | error e => exact ⟨rfl, hR⟩

theorem Alike.bind {t : Task σ ε α} {u : Task τ ε α} {f : α → Task σ ε β} {g : α → Task τ ε β}
    (h : Alike R t u) (hf : ∀ a, Alike R (f a) (g a)) : Alike R (t >>= f) (u >>= g) :=
  h.bind_of (Q := fun _ => True) (fun _ _ _ => trivial) fun a _ => hf a

end Task

namespace Desk

variable {σ τ ε α : Type} {R : σ → τ → Prop}

/-- The stores correspond, and the clocks are the same. -/
def Corresponds (R : σ → τ → Prop) (d : Desk σ) (d' : Desk τ) : Prop :=
  R d.store d'.store ∧ d.clock = d'.clock

theorem alike_onStore {t : StoreTask σ α} {u : StoreTask τ α} (h : Task.Alike R t u) :
    Task.Alike (Corresponds R) (onStore t) (onStore u) := by
  rintro ⟨s, clock⟩ ⟨s', clock'⟩ ⟨hs, hc⟩
  obtain rfl : clock = clock' := hc
  obtain ⟨heq, hR⟩ := h s s' hs
  unfold onStore
  rcases ht : t s with ⟨r, s₁⟩
  rcases hu : u s' with ⟨r', s₁'⟩
  rw [ht, hu] at heq hR
  obtain rfl : r = r' := heq
  cases r with
  | ok a => exact ⟨rfl, hR, rfl⟩
  | error e => exact ⟨rfl, hR, rfl⟩

theorem alike_readClock : Task.Alike (Corresponds R) (readClock : DeskTask σ Int) readClock := by
  rintro ⟨s, clock⟩ ⟨s', clock'⟩ ⟨hs, hc⟩
  obtain rfl : clock = clock' := hc
  exact ⟨rfl, hs, rfl⟩

theorem alike_check (wrap : ε → Failure) (r : Except ε α) :
    Task.Alike (Corresponds R) (check wrap r : DeskTask σ α) (check wrap r) := by
  cases r with
  | ok a => exact .pure a
  | error e => exact .throw (wrap e)

end Desk

/-- On the items of a partition two stores end alike. -/
structure Backend.Alike {σ τ : Type} (R : σ → τ → Prop) (partition : String) (b : Backend σ)
    (b' : Backend τ) : Prop where
  get : ∀ k : Key, k.partition = partition → Task.Alike R (b.get k) (b'.get k)
  write : ∀ w : Write, w.item.key.partition = partition → Task.Alike R (b.write w) (b'.write w)
  read : ∀ q : RangeRead, q.partition = partition → Task.Alike R (b.read q) (b'.read q)
  idle : ∀ s s', R s s' → b.idle s = b'.idle s'

namespace Backend.Alike

open Desk

variable {σ τ α : Type} {R : σ → τ → Prop} {partition : String} {b : Backend σ} {b' : Backend τ}

theorem alike_readsOf (h : Backend.Alike R partition b b') (q : RangeRead) :
    Task.Alike (Corresponds R) (readsOf b q) (readsOf b' q) := by
  rintro ⟨s, clock⟩ ⟨s', clock'⟩ ⟨hs, hc⟩
  refine ⟨?_, hs, hc⟩
  show Except.ok (q.positions + b.idle s + 1) = Except.ok (q.positions + b'.idle s' + 1)
  rw [h.idle s s' hs]

/-- A load of what is stored under a key. -/
theorem alike_load (h : Backend.Alike R partition b b') (ofItem : Item → Except AttributeError α) {k : Key}
    (hk : k.partition = partition) :
    Task.Alike (Corresponds R)
      (do match ← onStore (b.get k) with
          | some item => return some (← check .unreadable (ofItem item))
          | none => return none : DeskTask σ (Option α))
      (do match ← onStore (b'.get k) with
          | some item => return some (← check .unreadable (ofItem item))
          | none => return none) := by
  refine (alike_onStore (h.get k hk)).bind fun found => ?_
  cases found with
  | none => exact .pure none
  | some item => exact (alike_check _ _).bind fun a => .pure (some a)

end Backend.Alike

end Footage
