import Footage.Proofs.Requests
import Footage.Store.Memory

/-!
# Limits of nothing

A limit of 0 stands for 1, wherever it is set: in the store, on a range read, or on a page of periods.
Raising the limit in the store changes no answer of it (`Memory.alike_positive`), so a page is the same
and leaves the store with the limit raised (`page_positive`).
-/

namespace Footage

/-! ## Limits raised to one -/

/-- The same limits, each of them at least one. -/
def Paging.positive (p : Paging) : Paging :=
  { p with bucketsPerRead := p.bucketLimit, periodsPerPage := p.periodLimit }

@[simp] theorem Paging.bucketLimit_positive (p : Paging) : p.positive.bucketLimit = p.bucketLimit := by
  obtain ⟨n, _, _, _⟩ := p
  cases n with
  | none => rfl
  | some n => exact congrArg some (by omega)

@[simp] theorem Paging.periodLimit_positive (p : Paging) : p.positive.periodLimit = p.periodLimit := by
  show max 1 (max 1 p.periodsPerPage) = max 1 p.periodsPerPage
  omega

/-- The same store, with pages of at least one item. -/
def Memory.positive (m : Memory) : Memory := { m with pageSize := m.pageSize.map (max 1) }

theorem Memory.page_positive (m : Memory) (q : RangeRead) : m.positive.page q = m.page q := by
  have hlimit : m.positive.pageLimit q = m.pageLimit q := by
    unfold Memory.pageLimit Memory.positive
    cases q.limit with
    | none =>
      cases m.pageSize with
      | none => rfl
      | some b => exact congrArg some (by omega)
    | some a =>
      cases m.pageSize with
      | none => rfl
      | some b => exact congrArg some (by omega)
  unfold Memory.page
  rw [hlimit]
  rfl

theorem Memory.write_positive (w : Write) (m : Memory) :
    Memory.write w m.positive = ((Memory.write w m).1, (Memory.write w m).2.positive) := by
  unfold Memory.write
  by_cases hput : m.faults.put = true
  · rw [if_pos hput, if_pos (show m.positive.faults.put = true from hput)]
  rw [if_neg hput, if_neg (show ¬ m.positive.faults.put = true from hput)]
  show (if w.guard.all (·.Holds (m.find? w.item.key)) then (_ : Except StoreError Unit × Memory) else _) = _
  by_cases hguard : w.guard.all (·.Holds (m.find? w.item.key)) = true
  · rw [if_pos hguard, if_pos hguard]
    rfl
  · rw [if_neg hguard, if_neg hguard]

theorem Memory.read_positive (q : RangeRead) (m : Memory) :
    Memory.read q m.positive = ((Memory.read q m).1, (Memory.read q m).2.positive) := by
  unfold Memory.read
  by_cases hread : m.faults.read = true
  · rw [if_pos hread, if_pos (show m.positive.faults.read = true from hread)]
    rfl
  rw [if_neg hread, if_neg (show ¬ m.positive.faults.read = true from hread)]
  by_cases hfrom : m.faults.readsFrom.any (· ≤ m.attempt) = true
  · rw [if_pos hfrom,
      if_pos (show m.positive.faults.readsFrom.any (· ≤ m.positive.attempt) = true from hfrom)]
    rfl
  · rw [if_neg hfrom,
      if_neg (show ¬ m.positive.faults.readsFrom.any (· ≤ m.positive.attempt) = true from hfrom)]
    exact Prod.ext (congrArg Except.ok (m.page_positive q)) rfl

/-- The store ends alike with the limit raised. -/
theorem Memory.alike_positive (partition : String) :
    Backend.Alike (fun m m' => m' = m.positive) partition Memory.backend Memory.backend where
  get k _ m _ h := by
    subst h
    by_cases hget : m.faults.get = true
    · simp [backend, positive, hget]
    · simp [backend, positive, hget, find?]
  write w _ m _ h := by
    subst h
    show (Memory.write w m).1 = (Memory.write w m.positive).1 ∧ (Memory.write w m.positive).2 = _
    rw [write_positive]
    exact ⟨rfl, rfl⟩
  read q _ m _ h := by
    subst h
    show (Memory.read q m).1 = (Memory.read q m.positive).1 ∧ (Memory.read q m.positive).2 = _
    rw [read_positive]
    exact ⟨rfl, rfl⟩
  idle _ _ _ := rfl

/-- A change of the store as a change of the desk. -/
def Desk.change {σ : Type} (c : σ → σ) (desk : Desk σ) : Desk σ := { desk with store := c desk.store }

namespace Listing

variable {σ : Type}

theorem page_congr {p p' : Paging} (hbuckets : p'.bucketLimit = p.bucketLimit)
    (hperiods : p'.periodLimit = p.periodLimit) (b : Backend σ) (r : Request) :
    page b p' r = page b p r := by
  have hquery : query r p' = query r p := by
    funext upper
    unfold query
    rw [hbuckets]
  have hstop : pageStop r p' = pageStop r p := by
    funext first dataStop
    unfold pageStop fullAt?
    rw [hperiods]
  have hread : readBuckets b r p' = readBuckets b r p := by
    unfold readBuckets
    rw [hquery]
  have hpage : pageOf r p' = pageOf r p := by
    unfold pageOf
    rw [hstop]
  unfold page pageBy
  rw [hread, hpage]

theorem page_positive (p : Paging) (r : Request) (desk : Desk Memory) :
    page Memory.backend p.positive r (desk.change Memory.positive) =
      ((page Memory.backend p r desk).1, (page Memory.backend p r desk).2.change Memory.positive) := by
  rw [page_congr p.bucketLimit_positive p.periodLimit_positive]
  obtain ⟨heq, hstore, hclock⟩ := alike_page (Memory.alike_positive r.partition) p desk
    (desk.change Memory.positive) ⟨rfl, rfl⟩
  refine Prod.ext heq.symm ?_
  show _ = Desk.change Memory.positive _
  generalize page Memory.backend p r (desk.change Memory.positive) = x at *
  obtain ⟨_, _, _⟩ := x
  unfold Desk.change
  exact congr (congrArg Desk.mk hstore) hclock.symm

end Listing

end Footage
